import Telemetry.Gzip.Member
import Telemetry.Proofs.Text.Utf8

/-
  A gzip member written with stored blocks reads back as its content.

  `Gzip.compress` writes a fixed ten-byte header, the content in stored deflate blocks of at
  most 65535 bytes (`storedStream`), and a trailer with the CRC-32 and the length of the
  content. Reading walks the same layout: the bit reader at a byte boundary reads a block's
  header bits and its two little-endian lengths (`read_within_byte`, `read_two_bytes`),
  `stored` copies the block into the sink (`stored_eq`), `blocks` goes on to the final block
  (`blocks_storedStream`), and the trailer checks pass (`littleEndian_leBytes`). The sink
  refuses the first byte past the limit, so
  `decompressWithin_compress_append`: the member, followed by any bytes at all, reads back as
  its content when the content is within the limit, and fails with `tooLarge` otherwise.
-/

namespace Telemetry

/-! ## The stored layout -/

namespace Gzip

/-- The stored deflate blocks that carry `bs`: blocks of 65535 bytes, the last one, possibly
empty, marked final; each is a byte of header bits, the length and its complement, and the
bytes. -/
def storedStream (bs : List UInt8) : List UInt8 :=
  if bs.length ≤ 65535 then
    (1 : UInt8) :: leBytes bs.length 2 ++ leBytes (65535 - bs.length) 2 ++ bs
  else
    (0 : UInt8) :: leBytes 65535 2 ++ leBytes 0 2 ++ bs.take 65535 ++ storedStream (bs.drop 65535)
termination_by bs.length

theorem storedStream_of_le {bs : List UInt8} (h : bs.length ≤ 65535) :
    storedStream bs = (1 : UInt8) :: leBytes bs.length 2 ++ leBytes (65535 - bs.length) 2 ++ bs := by
  rw [storedStream, if_pos h]

theorem storedStream_of_gt {bs : List UInt8} (h : 65535 < bs.length) :
    storedStream bs =
      (0 : UInt8) :: leBytes 65535 2 ++ leBytes 0 2 ++ bs.take 65535 ++
        storedStream (bs.drop 65535) := by
  rw [storedStream, if_neg (by omega)]

@[simp] theorem length_leBytes (v n : Nat) : (leBytes v n).length = n := by
  simp [leBytes]

/-- The layout is at least five bytes longer than what it carries. -/
theorem length_storedStream (bs : List UInt8) : bs.length + 5 ≤ (storedStream bs).length := by
  fun_induction storedStream bs with
  | case1 bs _ =>
    simp only [List.length_cons, List.length_append, length_leBytes]
    omega
  | case2 bs h ih =>
    simp only [List.length_cons, List.length_append, length_leBytes, List.length_take,
      List.length_drop] at ih ⊢
    omega

/-- Two little-endian bytes of a number below `2^16`: its low byte, then its high byte. -/
theorem leBytes_two {v : Nat} (hv : v < 65536) :
    leBytes v 2 = [(v % 256).toUInt8, (v / 256).toUInt8] := by
  have hhigh : v / 256 % 256 = v / 256 := Nat.mod_eq_of_lt (by omega)
  simp [leBytes, List.range_succ, hhigh]

/-- The bytes from `pos` on, as an array. -/
theorem extract_eq (data : ByteArray) (pos stop : Nat) :
    (data.extract pos stop).data.toList = (data.data.toList.drop pos).take (stop - pos) := by
  rw [ByteArray.data_extract, Array.toList_extract, List.extract_eq_take_drop]

/-- Writing stored blocks from `pos` appends the stored layout of the rest of the content. -/
theorem storedBlocks_eq (data : ByteArray) (fuel pos : Nat) (acc : ByteArray)
    (hf : (data.size - pos) / 65535 < fuel) :
    storedBlocks data fuel pos acc =
      acc ++ (storedStream (data.data.toList.drop pos)).toByteArray := by
  induction fuel generalizing pos acc with
  | zero => omega
  | succ fuel ih =>
    rw [storedBlocks]
    have hlen : (data.data.toList.drop pos).length = data.size - pos := by simp
    by_cases hfin : pos + min 65535 (data.size - pos) ≥ data.size
    · -- the rest fits one block, the final one
      have hmin : min 65535 (data.size - pos) = data.size - pos := by omega
      have hc : pos + (data.size - pos) ≥ data.size := by omega
      simp only [hmin, if_pos hc]
      rw [storedStream_of_le (by omega), hlen]
      apply ByteArray.ext
      apply Array.toList_inj.1
      simp only [ByteArray.data_append, List.data_toByteArray, Array.toList_append, extract_eq,
        Nat.add_sub_cancel_left, List.take_of_length_le (Nat.le_of_eq hlen)]
      simp
    · -- a full block of 65535 bytes, then the rest
      have hmin : min 65535 (data.size - pos) = 65535 := by omega
      have hc : ¬pos + 65535 ≥ data.size := by omega
      simp only [hmin, if_neg hc]
      rw [ih _ _ (by omega)]
      conv => rhs; rw [storedStream_of_gt (by rw [hlen]; omega)]
      apply ByteArray.ext
      apply Array.toList_inj.1
      simp only [ByteArray.data_append, List.data_toByteArray, Array.toList_append, extract_eq,
        Nat.add_sub_cancel_left, List.drop_drop]
      simp

end Gzip

namespace Inflate

/-! ## Reading bits -/

namespace Bits

/-- Bit `q` of the input, least significant first within each byte. -/
def bitAt (data : ByteArray) (q : Nat) : Bool := (data.get! (q / 8)).toNat.testBit (q % 8)

/-- The number a read of `n` bits builds has the input bits as its binary digits. -/
theorem testBit_readFold (data : ByteArray) (p n j : Nat) :
    ((List.range n).foldl (fun acc i =>
      acc ||| (((data.get! ((p + i) / 8)).toNat >>> ((p + i) % 8)) &&& 1) <<< i) 0).testBit j =
      (decide (j < n) && bitAt data (p + j)) := by
  induction n with
  | zero => simp
  | succ n ih =>
    rw [List.range_succ, List.foldl_append, List.foldl_cons, List.foldl_nil, Nat.testBit_or, ih,
      Nat.testBit_shiftLeft, Nat.testBit_and, Nat.testBit_shiftRight]
    -- the new bit lands at `n`; below it the earlier bits, above it nothing
    rcases Nat.lt_trichotomy j n with hj | rfl | hj
    · simp [hj, Nat.lt_succ_of_lt hj, Nat.not_le_of_lt hj]
    · simp [bitAt]
    · have hone : Nat.testBit 1 (j - n) = false :=
        Nat.testBit_lt_two_pow (Nat.one_lt_two_pow (by omega))
      simp [Nat.not_lt_of_lt hj, Nat.not_lt.2 (Nat.succ_le_of_lt hj), Nat.le_of_lt hj, hone]

theorem read_eq {b : Bits} {n : Nat} (h : b.pos + n ≤ b.data.size * 8) :
    ∃ v, b.read n = some (v, { b with pos := b.pos + n }) ∧
      ∀ j, v.testBit j = (decide (j < n) && bitAt b.data (b.pos + j)) := by
  refine ⟨_, ?_, testBit_readFold b.data b.pos n⟩
  rw [read, if_neg (by omega)]

/-- Bits `i ..< i + n` of the byte at `k`. -/
theorem read_within_byte {data : ByteArray} {k i n q : Nat} (hk : k < data.size)
    (hi : i + n ≤ 8) (hq : q = 8 * k + i) :
    (⟨data, q⟩ : Bits).read n =
      some ((data.get! k).toNat / Nat.pow 2 i % Nat.pow 2 n, ⟨data, q + n⟩) := by
  subst hq
  obtain ⟨v, hv, hbits⟩ := @read_eq ⟨data, 8 * k + i⟩ n (by simp only; omega)
  rw [hv, Nat.pow_eq, Nat.pow_eq]
  congr
  apply Nat.eq_of_testBit_eq
  intro j
  rw [hbits, Nat.testBit_mod_two_pow, Nat.testBit_div_two_pow]
  by_cases hj : j < n
  · have hdiv : (8 * k + i + j) / 8 = k := by omega
    have hmod : (8 * k + i + j) % 8 = j + i := by omega
    simp [hj, bitAt, hdiv, hmod]
  · simp [hj]

/-- Sixteen bits at a byte boundary: two bytes, the first one low. -/
theorem read_two_bytes {data : ByteArray} {k : Nat} (hk : k + 2 ≤ data.size) :
    (⟨data, 8 * k⟩ : Bits).read 16 =
      some ((data.get! k).toNat + 256 * (data.get! (k + 1)).toNat, ⟨data, 8 * k + 16⟩) := by
  obtain ⟨v, hv, hbits⟩ := @read_eq ⟨data, 8 * k⟩ 16 (by simp only; omega)
  rw [hv]
  congr
  have hlow : (data.get! k).toNat < 2 ^ 8 := (data.get! k).toNat_lt
  have hhigh : (data.get! (k + 1)).toNat < 2 ^ 8 := (data.get! (k + 1)).toNat_lt
  rw [show (data.get! k).toNat + 256 * (data.get! (k + 1)).toNat =
    2 ^ 8 * (data.get! (k + 1)).toNat + (data.get! k).toNat by omega]
  apply Nat.eq_of_testBit_eq
  intro j
  rw [hbits, Nat.testBit_two_pow_mul_add _ hlow]
  -- the low byte gives bits `0 ..< 8`, the high byte bits `8 ..< 16`, and nothing lies above
  by_cases hj : j < 8
  · have hdiv : (8 * k + j) / 8 = k := by omega
    have hmod : (8 * k + j) % 8 = j := by omega
    simp [hj, Nat.lt_of_lt_of_le hj (by decide : 8 ≤ 16), bitAt, hdiv, hmod]
  · by_cases hj' : j < 16
    · have hdiv : (8 * k + j) / 8 = k + 1 := by omega
      have hmod : (8 * k + j) % 8 = j - 8 := by omega
      simp [hj, hj', bitAt, hdiv, hmod]
    · have hbig : (data.get! (k + 1)).toNat < 2 ^ (j - 8) :=
        Nat.lt_of_lt_of_le hhigh (Nat.pow_le_pow_right (by decide) (by omega))
      simp [hj, hj', Nat.testBit_lt_two_pow hbig]

/-- At bit 3 of a byte, the next byte boundary is the start of the next byte. -/
theorem align_eq (data : ByteArray) (k : Nat) :
    (⟨data, 8 * k + 3⟩ : Bits).align = ⟨data, 8 * (k + 1)⟩ := by
  simp only [align, Bits.mk.injEq, true_and]
  omega

end Bits

/-! ## The sink -/

namespace Sink

/-- Pushing bytes one by one into a sink within its limit: all of them, unless the output
would pass the limit. -/
theorem foldlM_push {s : Sink} (hs : s.out.size ≤ s.limit) (bs : List UInt8) :
    bs.foldlM (fun s b => s.push b) s =
      if s.out.size + bs.length ≤ s.limit then .ok { s with out := s.out ++ bs.toByteArray }
      else .error .full := by
  induction bs generalizing s with
  | nil =>
    have hout : s.out ++ ([] : List UInt8).toByteArray = s.out := by simp
    rw [if_pos (by simpa using hs), hout]
    rfl
  | cons b bs ih =>
    rw [List.foldlM_cons]
    by_cases hb : s.out.size + 1 > s.limit
    · have hpush : s.push b = .error .full := by simp [push, ByteArray.size_push, hb]
      rw [hpush, if_neg (by simp; omega)]
      rfl
    · have hpush : s.push b = .ok { s with out := s.out.push b } := by
        simp [push, ByteArray.size_push, hb]
      rw [hpush]
      show List.foldlM (fun s b => s.push b) { s with out := s.out.push b } bs = _
      rw [ih (by simp only [ByteArray.size_push]; omega)]
      simp only [ByteArray.size_push, List.length_cons]
      rw [← ByteArray.append_toByteArray_singleton, ByteArray.append_assoc,
        ← List.toByteArray_append, List.singleton_append]
      by_cases hfit : s.out.size + (bs.length + 1) ≤ s.limit
      · rw [if_pos (by omega), if_pos hfit]
      · rw [if_neg (by omega), if_neg hfit]

end Sink

/-! ## Stored blocks -/

open Gzip in
/-- Sixteen bits at a byte boundary where a little-endian length was written. -/
theorem read_leBytes {data : ByteArray} {k p v : Nat} {rest : List UInt8} (hv : v < 65536)
    (h : data.data.toList.drop k = leBytes v 2 ++ rest) (hp : p = 8 * k) :
    (⟨data, p⟩ : Bits).read 16 = some (v, ⟨data, p + 16⟩) := by
  have hsize : k + 2 ≤ data.size := by
    have := congrArg List.length h
    simp only [List.length_drop, List.length_append, length_leBytes] at this
    rw [Bytes.size_eq]
    omega
  subst hp
  rw [leBytes_two hv] at h
  have h0 := Bytes.get!_of_drop h 0 (by simp)
  have h1 := Bytes.get!_of_drop h 1 (by simp)
  rw [Nat.add_zero] at h0
  rw [Bits.read_two_bytes hsize, h0, h1, List.getElem_cons_zero, List.getElem_cons_succ,
    List.getElem_cons_zero, UInt8.toNat_ofNat_of_lt' (Nat.mod_lt _ (by decide)),
    UInt8.toNat_ofNat_of_lt' (by unfold UInt8.size; omega), Nat.mod_add_div]

open Gzip in
/-- A stored block at byte `k`, after its three header bits: the length, its complement, and
the bytes, copied into a sink within its limit. -/
theorem stored_eq {data : ByteArray} {k : Nat} {bs rest : List UInt8} (hbs : bs.length ≤ 65535)
    (hdata : data.data.toList.drop (k + 1) =
      leBytes bs.length 2 ++ (leBytes (65535 - bs.length) 2 ++ (bs ++ rest)))
    {s : Sink} (hs : s.out.size ≤ s.limit) {q : Nat} (hq : q = 8 * k + 3) :
    stored ⟨data, q⟩ s =
      if s.out.size + bs.length ≤ s.limit then
        .ok (⟨data, 8 * (k + 5 + bs.length)⟩, { s with out := s.out ++ bs.toByteArray })
      else .error .full := by
  subst hq
  have hdata₃ : data.data.toList.drop (k + 3) = leBytes (65535 - bs.length) 2 ++ (bs ++ rest) := by
    rw [show k + 3 = (k + 1) + 2 by omega, ← List.drop_drop, hdata, List.drop_left' (by simp)]
  have hdata₅ : data.data.toList.drop (k + 5) = bs ++ rest := by
    rw [show k + 5 = (k + 3) + 2 by omega, ← List.drop_drop, hdata₃, List.drop_left' (by simp)]
  have hsize : k + 5 + bs.length ≤ data.size := by
    have := congrArg List.length hdata
    simp only [List.length_drop, List.length_append, length_leBytes] at this
    rw [Bytes.size_eq]
    omega
  -- the copied bytes are the block's bytes
  have hcopy : (List.range bs.length).map (fun i => data.get! (k + 5 + i)) = bs := by
    apply List.ext_getElem (by simp)
    intro i h₁ h₂
    rw [List.getElem_map, List.getElem_range, Bytes.get!_of_drop hdata₅ i h₂]
  rw [stored, Bits.align_eq, read_leBytes (by omega) hdata rfl]
  dsimp only [need, bind, Except.bind]
  rw [read_leBytes (by omega) hdata₃ (show 8 * (k + 1) + 16 = 8 * (k + 3) by omega)]
  dsimp only
  have hchk : (bs.length != 65535 - (65535 - bs.length)) = false := by
    simp only [bne_eq_false_iff_eq]
    omega
  have hstart : (8 * (k + 1) + 16 + 16) / 8 = k + 5 := by omega
  have hfold : (List.range bs.length).foldlM (fun s i => s.push (data.get! (k + 5 + i))) s =
      bs.foldlM (fun s b => s.push b) s := by
    conv => rhs; rw [← hcopy]
    rw [List.foldlM_map]
  rw [hchk, hstart, if_neg Bool.false_ne_true, if_neg (by omega), hfold, Sink.foldlM_push hs]
  by_cases hfit : s.out.size + bs.length ≤ s.limit
  · rw [if_pos hfit, if_pos hfit]
    simp only [pure, Except.pure, Except.ok.injEq, Prod.mk.injEq, Bits.mk.injEq, true_and,
      and_true]
    omega
  · rw [if_neg hfit, if_neg hfit]

/-- A block whose header bits give the final flag `f` and the type `0`: a stored block, then
the end when the flag is set, else the next block. -/
theorem blocks_succ_stored {b b₁ b₂ : Bits} {s : Sink} {f : Nat} (fuel : Nat)
    (h₁ : b.read 1 = some (f, b₁)) (h₂ : b₁.read 2 = some (0, b₂)) :
    blocks (fuel + 1) b s =
      (stored b₂ s).bind fun r => if f == 1 then .ok r else blocks fuel r.1 r.2 := by
  -- `simp` rather than `dsimp`: a definitional unfolding here makes the kernel evaluate the
  -- fixed Huffman codes of the other block types
  simp only [blocks, h₁, h₂, need, bind, Except.bind]

/-- The header bits of a stored block at a byte boundary: the final flag in the lowest bit,
then the type `0`. -/
theorem read_stored_header {data : ByteArray} {p : Nat} {flag : UInt8} {rest : List UInt8}
    (hflag : flag.toNat < 2) (h : data.data.toList.drop p = flag :: rest) :
    (⟨data, 8 * p⟩ : Bits).read 1 = some (flag.toNat, ⟨data, 8 * p + 1⟩) ∧
      (⟨data, 8 * p + 1⟩ : Bits).read 2 = some (0, ⟨data, 8 * p + 1 + 2⟩) := by
  have h' : data.data.toList.drop p = [flag] ++ rest := h
  have hp : p < data.size := by
    have := congrArg List.length h
    simp only [List.length_drop, List.length_cons] at this
    rw [Bytes.size_eq]
    omega
  have hbyte : data.get! p = flag := Bytes.get!_of_drop h' 0 (by simp)
  rw [Bits.read_within_byte hp (by omega : 0 + 1 ≤ 8) (by omega : 8 * p = 8 * p + 0),
    Bits.read_within_byte hp (by omega : 1 + 2 ≤ 8) rfl, hbyte]
  constructor
  · simp only [Nat.pow_eq, Nat.pow_zero, Nat.div_one, Nat.pow_one, Nat.mod_eq_of_lt hflag]
  · simp only [Nat.pow_eq, Nat.pow_one, Nat.div_eq_of_lt hflag, Nat.zero_mod]

open Gzip in
/-- Reading the stored layout of `bs` at a byte boundary into a sink within its limit: the
bytes of every block, to the end of the final one, unless the output would pass the limit. -/
theorem blocks_storedStream {data : ByteArray} {p : Nat} {bs rest : List UInt8} {s : Sink}
    (hs : s.out.size ≤ s.limit) {fuel : Nat} (hfuel : bs.length / 65535 < fuel)
    (hdata : data.data.toList.drop p = storedStream bs ++ rest) :
    blocks fuel ⟨data, 8 * p⟩ s =
      if s.out.size + bs.length ≤ s.limit then
        .ok (⟨data, 8 * (p + (storedStream bs).length)⟩, { s with out := s.out ++ bs.toByteArray })
      else .error .full := by
  induction fuel generalizing p bs s with
  | zero => omega
  | succ fuel ih =>
    by_cases hlast : bs.length ≤ 65535
    · -- the final block
      rw [storedStream_of_le hlast] at hdata ⊢
      obtain ⟨h₁, h₂⟩ := read_stored_header (by decide) hdata
      have htail : data.data.toList.drop (p + 1) =
          leBytes bs.length 2 ++ (leBytes (65535 - bs.length) 2 ++ (bs ++ rest)) := by
        rw [← List.drop_drop, hdata]
        simp
      rw [blocks_succ_stored fuel h₁ h₂, stored_eq hlast htail hs (by omega)]
      by_cases hfit : s.out.size + bs.length ≤ s.limit
      · rw [if_pos hfit, if_pos hfit]
        simp only [Except.bind, List.length_cons, List.length_append, length_leBytes]
        rw [if_pos (show (UInt8.toNat 1 == 1) = true from rfl)]
        congr 3
        omega
      · rw [if_neg hfit, if_neg hfit]
        rfl
    · -- a full block, then the layout of the rest
      rw [storedStream_of_gt (by omega)] at hdata
      obtain ⟨h₁, h₂⟩ := read_stored_header (by decide) hdata
      have htake : (bs.take 65535).length = 65535 := by simp; omega
      have htail : data.data.toList.drop (p + 1) =
          leBytes (bs.take 65535).length 2 ++ (leBytes (65535 - (bs.take 65535).length) 2 ++
            (bs.take 65535 ++ (storedStream (bs.drop 65535) ++ rest))) := by
        rw [← List.drop_drop, hdata, htake]
        simp
      have hnext : data.data.toList.drop (p + 5 + 65535) =
          storedStream (bs.drop 65535) ++ rest := by
        rw [show p + 5 + 65535 = p + 1 + (2 + (2 + 65535)) by omega, ← List.drop_drop, htail, htake,
          ← List.drop_drop, List.drop_left' (length_leBytes _ _), ← List.drop_drop,
          List.drop_left' (length_leBytes _ _), List.drop_left' htake]
      rw [blocks_succ_stored fuel h₁ h₂, stored_eq (by omega) htail hs (by omega), htake]
      by_cases hfit : s.out.size + 65535 ≤ s.limit
      · rw [if_pos hfit]
        simp only [Except.bind]
        rw [if_neg (show ¬((UInt8.toNat 0 == 1) = true) by decide)]
        have hs' : (s.out ++ (bs.take 65535).toByteArray).size ≤ s.limit := by
          simp only [ByteArray.size_append, List.size_toByteArray, htake]
          omega
        rw [ih hs' (by simp only [List.length_drop]; omega) hnext]
        have hsize : (s.out ++ (bs.take 65535).toByteArray).size + (bs.drop 65535).length =
            s.out.size + bs.length := by
          simp only [ByteArray.size_append, List.size_toByteArray, htake, List.length_drop]
          omega
        rw [hsize]
        by_cases hall : s.out.size + bs.length ≤ s.limit
        · rw [if_pos hall, if_pos hall, ByteArray.append_assoc, ← List.toByteArray_append,
            List.take_append_drop, storedStream_of_gt (by omega : 65535 < bs.length)]
          simp only [List.length_cons, List.length_append, length_leBytes, htake]
          congr 3
          omega
        · rw [if_neg hall, if_neg hall]
      · rw [if_neg hfit, if_neg (by omega)]
        rfl

end Inflate

namespace Gzip

/-! ## The member -/

/-- The header, the stored layout and the trailer, byte by byte. -/
theorem compress_toList (d : ByteArray) :
    (compress d).data.toList = [0x1f, 0x8b, 8, 0, 0, 0, 0, 0, 0, 0xff] ++
      storedStream d.data.toList ++ (leBytes (Crc32.checksum d).toNat 4 ++
        leBytes (d.size % Nat.pow 2 32) 4) := by
  rw [compress, storedBlocks_eq _ _ _ _ (by omega)]
  simp [List.data_toByteArray]

/-- Little-endian bytes read back as the number they were written from, modulo their range. -/
theorem littleEndian_leBytes {data : ByteArray} {pos v n : Nat} {rest : List UInt8}
    (h : data.data.toList.drop pos = leBytes v n ++ rest) :
    littleEndian data pos n = v % Nat.pow 256 n := by
  suffices hm : ∀ m ≤ n, (List.range m).foldl
      (fun acc i => acc + (data.get! (pos + i)).toNat * Nat.pow 256 i) 0 = v % Nat.pow 256 m from
    hm n (Nat.le_refl n)
  intro m hm
  induction m with
  | zero => simp [Nat.pow, Nat.mod_one]
  | succ m ih =>
    rw [List.range_succ, List.foldl_append, List.foldl_cons, List.foldl_nil, ih (by omega),
      Bytes.get!_of_drop h m (by simp; omega)]
    simp only [leBytes, List.getElem_map, List.getElem_range, Nat.pow_eq, UInt8.toNat_ofNat']
    rw [Nat.mod_eq_of_lt (Nat.lt_of_lt_of_le (Nat.mod_lt _ (by decide)) (by decide : 256 ≤ 2 ^ 8)),
      @Nat.mod_pow_succ v 256 m, Nat.mul_comm]

/-- The fixed header: the magic bytes, deflate, no flags; the stream starts at byte 10. -/
theorem headerEnd_of_plain {data : ByteArray} {rest : List UInt8}
    (h : data.data.toList = [0x1f, 0x8b, 8, 0, 0, 0, 0, 0, 0, 0xff] ++ rest) :
    headerEnd data = some 10 := by
  have hsize : 10 ≤ data.size := by
    rw [Bytes.size_eq, h]
    simp
  have hd : data.data.toList.drop 0 = [0x1f, 0x8b, 8, 0, 0, 0, 0, 0, 0, 0xff] ++ rest := h
  have h0 := Bytes.get!_of_drop hd 0 (by simp)
  have h1 := Bytes.get!_of_drop hd 1 (by simp)
  have h2 := Bytes.get!_of_drop hd 2 (by simp)
  have h3 := Bytes.get!_of_drop hd 3 (by simp)
  simp only [Nat.zero_add] at h0 h1 h2 h3
  simp [headerEnd, Nat.not_lt.2 hsize, h0, h1, h2, h3]

/-- Inflating a stored layout that starts at byte `start`: its content, and the byte just
after it, unless the content passes the limit. -/
theorem inflate_storedStream {data : ByteArray} {start : Nat} {bs rest : List UInt8}
    (limit : Nat) (h : data.data.toList.drop start = storedStream bs ++ rest) :
    Inflate.inflate data start limit =
      if bs.length ≤ limit then .ok (bs.toByteArray, start + (storedStream bs).length)
      else .error .full := by
  have hlen := length_storedStream bs
  have hsize : start + (storedStream bs).length ≤ data.size := by
    have := congrArg List.length h
    simp only [List.length_drop, List.length_append] at this
    rw [Bytes.size_eq]
    omega
  rw [Inflate.inflate]
  dsimp only
  rw [Nat.mul_comm start 8, Inflate.blocks_storedStream (by simp) (by simp [Inflate.Bits.remaining]; omega) h]
  by_cases hfit : bs.length ≤ limit
  · rw [if_pos (by simp; omega), if_pos hfit]
    simp only [ByteArray.empty_append, bind, Except.bind, pure, Except.pure, Except.ok.injEq,
      Prod.mk.injEq, true_and]
    omega
  · rw [if_neg (by simp; omega), if_neg hfit]
    rfl

/-- **A member reads back as its content.** A member written by `compress`, followed by any
bytes, reads back as the content when it is within the limit, and fails as too large
otherwise. -/
theorem decompressWithin_compress_append (d t : ByteArray) (max : Nat) :
    decompressWithin max (compress d ++ t) =
      if d.size ≤ max then .ok d else .error (.tooLarge max) := by
  have hlist : (compress d ++ t).data.toList = [0x1f, 0x8b, 8, 0, 0, 0, 0, 0, 0, 0xff] ++
      (storedStream d.data.toList ++ (leBytes (Crc32.checksum d).toNat 4 ++
        (leBytes (d.size % Nat.pow 2 32) 4 ++ t.data.toList))) := by
    rw [ByteArray.toList_data_append, compress_toList]
    simp
  have hstart : (compress d ++ t).data.toList.drop 10 = storedStream d.data.toList ++
      (leBytes (Crc32.checksum d).toNat 4 ++ (leBytes (d.size % Nat.pow 2 32) 4 ++ t.data.toList)) := by
    rw [hlist, List.drop_left' (by simp)]
  rw [decompressWithin, headerEnd_of_plain hlist]
  dsimp only
  rw [inflate_storedStream max hstart]
  have hD : d.data.toList.length = d.size := by simp
  by_cases hfit : d.size ≤ max
  · rw [if_pos (by rw [hD]; exact hfit), if_pos hfit]
    dsimp only
    -- the trailer follows the layout: the checksum, then the length
    have htrailer : (compress d ++ t).data.toList.drop (10 + (storedStream d.data.toList).length) =
        leBytes (Crc32.checksum d).toNat 4 ++ (leBytes (d.size % Nat.pow 2 32) 4 ++ t.data.toList) := by
      rw [← List.drop_drop, hstart, List.drop_left' rfl]
    have hlength : (compress d ++ t).data.toList.drop
        (10 + (storedStream d.data.toList).length + 4) =
          leBytes (d.size % Nat.pow 2 32) 4 ++ t.data.toList := by
      rw [← List.drop_drop, htrailer, List.drop_left' (by simp)]
    have hsize : 10 + (storedStream d.data.toList).length + 8 ≤ (compress d ++ t).size := by
      rw [Bytes.size_eq, hlist]
      simp only [List.length_append, List.length_cons, List.length_nil, length_leBytes]
      omega
    have hcrc : (Crc32.checksum d).toNat % Nat.pow 256 4 = (Crc32.checksum d).toNat :=
      Nat.mod_eq_of_lt (Crc32.checksum d).toNat_lt
    have hmod : d.size % Nat.pow 2 32 % Nat.pow 256 4 = d.size % Nat.pow 2 32 :=
      Nat.mod_eq_of_lt (Nat.mod_lt _ (by decide))
    rw [if_neg (by omega), littleEndian_leBytes htrailer, littleEndian_leBytes hlength, hcrc, hmod,
      Bytes.toByteArray_toList]
    simp
  · rw [if_neg (by omega), if_neg hfit]

end Gzip

end Telemetry
