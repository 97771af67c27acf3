import Telemetry.Text.Utf8

/-
  Byte arrays as lists, and UTF-8 written and read back.

  A byte array is read through the list of its bytes (`Bytes.toList_eq`, `Bytes.get!_eq`).
  `Utf8.encodeChar` is the encoder of the core library (`encodeChar_eq_utf8EncodeChar`), so
  the bytes of a text are its `Utf8.encode` (`toUTF8_toList`), and the decoder reads the bytes
  of each character back as the character and leaves the bytes after it
  (`decodeOne_encodeChar`). The byte ranges of the encoding are what readers of escaped text
  rely on: an ASCII character is its own byte, and every byte of any other character is at
  least `0x80`.
-/

namespace Telemetry

/-! ## Byte arrays as lists -/

namespace Bytes

theorem get!_eq (b : ByteArray) (i : Nat) : b.get! i = b.data.toList.getD i 0 := by
  obtain ⟨a⟩ := b
  simp only [ByteArray.get!, Array.getElem!_eq_getD, Array.getD_eq_getD_getElem?,
    List.getD_eq_getElem?_getD, Array.getElem?_toList]
  rfl

theorem size_eq (b : ByteArray) : b.size = b.data.toList.length := by
  simp

/-- The byte at `k + i` of an array whose bytes from `k` on start with `l`. -/
theorem get!_of_drop {b : ByteArray} {k : Nat} {l rest : List UInt8}
    (h : b.data.toList.drop k = l ++ rest) (i : Nat) (hi : i < l.length) :
    b.get! (k + i) = l[i] := by
  rw [get!_eq, List.getD_eq_getElem?_getD, ← List.getElem?_drop, h,
    List.getElem?_append_left hi, List.getElem?_eq_getElem hi, Option.getD_some]

theorem toList_loop (b : ByteArray) (i : Nat) (r : List UInt8) (hi : i ≤ b.size) :
    ByteArray.toList.loop b i r = r.reverse ++ b.data.toList.drop i := by
  induction h : b.size - i generalizing i r with
  | zero =>
    have hi' : i = b.size := by omega
    rw [ByteArray.toList.loop, if_neg (by omega), hi', size_eq, List.drop_length,
      List.append_nil]
  | succ n ih =>
    rw [ByteArray.toList.loop, if_pos (by omega), ih (i + 1) _ (by omega) (by omega),
      List.reverse_cons, List.append_assoc, List.singleton_append]
    congr 1
    have hlen : i < b.data.toList.length := by rw [← size_eq]; omega
    rw [get!_eq, List.getD_eq_getElem?_getD, List.getElem?_eq_getElem hlen, Option.getD_some,
      List.drop_eq_getElem_cons hlen]

/-- The list of a byte array is its array's list. -/
theorem toList_eq (b : ByteArray) : b.toList = b.data.toList := by
  rw [ByteArray.toList, toList_loop b 0 [] (Nat.zero_le _)]
  rfl

theorem toByteArray_toList (b : ByteArray) : b.data.toList.toByteArray = b := by
  apply ByteArray.ext
  simp [List.data_toByteArray]

end Bytes

namespace Utf8

/-! ## Bytes of a character -/

theorem encodeChar_of_lt {c : Char} (h : c.toNat < 0x80) : encodeChar c = [c.toNat.toUInt8] := by
  simp [encodeChar, h]

theorem encodeChar_eq_cons (c : Char) : ∃ b tl, encodeChar c = b :: tl := by
  simp only [encodeChar]
  split
  · exact ⟨_, _, rfl⟩
  split
  · exact ⟨_, _, rfl⟩
  split <;> exact ⟨_, _, rfl⟩

/-- A code point is at most `U+10FFFF`. -/
theorem toNat_lt (c : Char) : c.toNat < 0x110000 := by
  have hv : c.toNat.isValidChar := c.valid
  simp only [Nat.isValidChar] at hv
  omega

/-- The model's encoder is the core library's. -/
theorem encodeChar_eq_utf8EncodeChar (c : Char) : encodeChar c = String.utf8EncodeChar c := by
  have hc := toNat_lt c
  simp only [encodeChar, String.utf8EncodeChar, show c.val.toNat = c.toNat from rfl, Nat.toUInt8]
  by_cases h₁ : c.toNat < 0x80
  · rw [if_pos h₁, if_pos (show c.toNat ≤ 0x7f by omega)]
  rw [if_neg h₁, if_neg (show ¬c.toNat ≤ 0x7f by omega)]
  by_cases h₂ : c.toNat < 0x800
  · rw [if_pos h₂, if_pos (show c.toNat ≤ 0x7ff by omega)]
    simp only [List.cons.injEq, and_true]
    exact ⟨congrArg _ (by omega), congrArg _ (by omega)⟩
  rw [if_neg h₂, if_neg (show ¬c.toNat ≤ 0x7ff by omega)]
  by_cases h₃ : c.toNat < 0x10000
  · rw [if_pos h₃, if_pos (show c.toNat ≤ 0xffff by omega)]
    simp only [List.cons.injEq, and_true]
    exact ⟨congrArg _ (by omega), congrArg _ (by omega), congrArg _ (by omega)⟩
  rw [if_neg h₃, if_neg (show ¬c.toNat ≤ 0xffff by omega)]
  simp only [List.cons.injEq, and_true]
  exact ⟨congrArg _ (by omega), congrArg _ (by omega), congrArg _ (by omega), congrArg _ (by omega)⟩

/-- Every byte of a character past ASCII is at least `0x80`. -/
theorem le_of_mem_encodeChar {c : Char} (h : 0x80 ≤ c.toNat) {b : UInt8}
    (hb : b ∈ encodeChar c) : 0x80 ≤ b.toNat := by
  have hc := toNat_lt c
  simp only [encodeChar, if_neg (show ¬c.toNat < 0x80 by omega)] at hb
  split at hb
  · simp only [List.mem_cons, List.not_mem_nil, or_false] at hb
    rcases hb with rfl | rfl <;> simp [Nat.toUInt8, UInt8.toNat_ofNat] <;> omega
  split at hb
  · simp only [List.mem_cons, List.not_mem_nil, or_false] at hb
    rcases hb with rfl | rfl | rfl <;> simp [Nat.toUInt8, UInt8.toNat_ofNat] <;> omega
  · simp only [List.mem_cons, List.not_mem_nil, or_false] at hb
    rcases hb with rfl | rfl | rfl | rfl <;> simp [Nat.toUInt8, UInt8.toNat_ofNat] <;> omega

/-! ## Reading a character back -/

theorem scalar?_toNat (c : Char) : scalar? c.toNat = some c := by
  rw [scalar?, if_pos (show c.toNat.isValidChar from c.valid), Char.ofNat_toNat]

theorem isCont_cont : ∀ k < 64, isCont (0x80 + k).toUInt8 = true := by
  decide

theorem low6_cont : ∀ k < 64, low6 (0x80 + k).toUInt8 = k := by
  decide

theorem decodeOne_two {b₀ b₁ : UInt8} (rest : List UInt8) (h : 0xc2 ≤ b₀.toNat)
    (h' : b₀.toNat < 0xe0) (h₁ : isCont b₁ = true) :
    decodeOne (b₀ :: b₁ :: rest) = (scalar? ((b₀.toNat - 0xc0) * 64 + low6 b₁)).map (·, rest) := by
  have : ¬b₀ < 0x80 := by rw [UInt8.lt_iff_toNat_lt]; simp only [UInt8.reduceToNat]; omega
  have : ¬b₀ < 0xc2 := by rw [UInt8.lt_iff_toNat_lt]; simp only [UInt8.reduceToNat]; omega
  have : b₀ < 0xe0 := by rw [UInt8.lt_iff_toNat_lt]; simp only [UInt8.reduceToNat]; omega
  simp [decodeOne, *]

theorem decodeOne_three {b₀ b₁ b₂ : UInt8} (rest : List UInt8) (h : 0xe0 ≤ b₀.toNat)
    (h' : b₀.toNat < 0xf0) (h₁ : isCont b₁ = true) (h₂ : isCont b₂ = true)
    (hn : 0x800 ≤ (b₀.toNat - 0xe0) * 4096 + low6 b₁ * 64 + low6 b₂) :
    decodeOne (b₀ :: b₁ :: b₂ :: rest) =
      (scalar? ((b₀.toNat - 0xe0) * 4096 + low6 b₁ * 64 + low6 b₂)).map (·, rest) := by
  have : ¬b₀ < 0x80 := by rw [UInt8.lt_iff_toNat_lt]; simp only [UInt8.reduceToNat]; omega
  have : ¬b₀ < 0xc2 := by rw [UInt8.lt_iff_toNat_lt]; simp only [UInt8.reduceToNat]; omega
  have : ¬b₀ < 0xe0 := by rw [UInt8.lt_iff_toNat_lt]; simp only [UInt8.reduceToNat]; omega
  have : b₀ < 0xf0 := by rw [UInt8.lt_iff_toNat_lt]; simp only [UInt8.reduceToNat]; omega
  have : ¬(b₀.toNat - 0xe0) * 4096 + low6 b₁ * 64 + low6 b₂ < 0x800 := by omega
  simp [decodeOne, *]

theorem decodeOne_four {b₀ b₁ b₂ b₃ : UInt8} (rest : List UInt8) (h : 0xf0 ≤ b₀.toNat)
    (h' : b₀.toNat < 0xf5) (h₁ : isCont b₁ = true) (h₂ : isCont b₂ = true)
    (h₃ : isCont b₃ = true)
    (hn : 0x10000 ≤ (b₀.toNat - 0xf0) * 262144 + low6 b₁ * 4096 + low6 b₂ * 64 + low6 b₃) :
    decodeOne (b₀ :: b₁ :: b₂ :: b₃ :: rest) =
      (scalar? ((b₀.toNat - 0xf0) * 262144 + low6 b₁ * 4096 + low6 b₂ * 64 + low6 b₃)).map
        (·, rest) := by
  have : ¬b₀ < 0x80 := by rw [UInt8.lt_iff_toNat_lt]; simp only [UInt8.reduceToNat]; omega
  have : ¬b₀ < 0xc2 := by rw [UInt8.lt_iff_toNat_lt]; simp only [UInt8.reduceToNat]; omega
  have : ¬b₀ < 0xe0 := by rw [UInt8.lt_iff_toNat_lt]; simp only [UInt8.reduceToNat]; omega
  have : ¬b₀ < 0xf0 := by rw [UInt8.lt_iff_toNat_lt]; simp only [UInt8.reduceToNat]; omega
  have : b₀ < 0xf5 := by rw [UInt8.lt_iff_toNat_lt]; simp only [UInt8.reduceToNat]; omega
  have : ¬(b₀.toNat - 0xf0) * 262144 + low6 b₁ * 4096 + low6 b₂ * 64 + low6 b₃ < 0x10000 := by
    omega
  simp [decodeOne, *]

/-- The decoder reads the bytes of a character back as the character. -/
theorem decodeOne_encodeChar (c : Char) (rest : List UInt8) :
    decodeOne (encodeChar c ++ rest) = some (c, rest) := by
  have hc := toNat_lt c
  -- the continuation bytes carry six bits each
  have hcont := isCont_cont
  have hlow := low6_cont
  by_cases h₁ : c.toNat < 0x80
  · have hb : c.toNat.toUInt8 < 0x80 := by
      rw [UInt8.lt_iff_toNat_lt, UInt8.toNat_ofNat_of_lt' (by unfold UInt8.size; omega)]
      exact h₁
    rw [encodeChar_of_lt h₁, List.singleton_append]
    simp only [decodeOne, if_pos hb]
    rw [UInt8.toNat_ofNat_of_lt' (by unfold UInt8.size; omega), scalar?_toNat]
    rfl
  by_cases h₂ : c.toNat < 0x800
  · simp only [encodeChar, if_neg h₁, if_pos h₂, List.cons_append, List.nil_append]
    rw [decodeOne_two rest (by rw [UInt8.toNat_ofNat_of_lt' (by unfold UInt8.size; omega)]; omega)
      (by rw [UInt8.toNat_ofNat_of_lt' (by unfold UInt8.size; omega)]; omega) (hcont _ (by omega)), UInt8.toNat_ofNat_of_lt' (by unfold UInt8.size; omega),
      hlow _ (by omega), show (0xc0 + c.toNat / 64 - 0xc0) * 64 + c.toNat % 64 = c.toNat by omega,
      scalar?_toNat]
    rfl
  by_cases h₃ : c.toNat < 0x10000
  · simp only [encodeChar, if_neg h₁, if_neg h₂, if_pos h₃, List.cons_append, List.nil_append]
    rw [decodeOne_three rest (by rw [UInt8.toNat_ofNat_of_lt' (by unfold UInt8.size; omega)]; omega)
      (by rw [UInt8.toNat_ofNat_of_lt' (by unfold UInt8.size; omega)]; omega) (hcont _ (by omega)) (hcont _ (by omega))
      (by rw [UInt8.toNat_ofNat_of_lt' (by unfold UInt8.size; omega), hlow _ (by omega), hlow _ (by omega)]; omega),
      UInt8.toNat_ofNat_of_lt' (by unfold UInt8.size; omega), hlow _ (by omega), hlow _ (by omega),
      show (0xe0 + c.toNat / 4096 - 0xe0) * 4096 + c.toNat / 64 % 64 * 64 + c.toNat % 64 = c.toNat
        by omega, scalar?_toNat]
    rfl
  simp only [encodeChar, if_neg h₁, if_neg h₂, if_neg h₃, List.cons_append, List.nil_append]
  rw [decodeOne_four rest (by rw [UInt8.toNat_ofNat_of_lt' (by unfold UInt8.size; omega)]; omega)
    (by rw [UInt8.toNat_ofNat_of_lt' (by unfold UInt8.size; omega)]; omega) (hcont _ (by omega)) (hcont _ (by omega))
    (hcont _ (by omega))
    (by rw [UInt8.toNat_ofNat_of_lt' (by unfold UInt8.size; omega), hlow _ (by omega), hlow _ (by omega), hlow _ (by omega)]; omega),
    UInt8.toNat_ofNat_of_lt' (by unfold UInt8.size; omega), hlow _ (by omega), hlow _ (by omega), hlow _ (by omega),
    show (0xf0 + c.toNat / 262144 - 0xf0) * 262144 + c.toNat / 4096 % 64 * 4096 +
      c.toNat / 64 % 64 * 64 + c.toNat % 64 = c.toNat by omega, scalar?_toNat]
  rfl

/-! ## Bytes of a text -/

theorem encode_append (s t : String) : encode (s ++ t) = encode s ++ encode t := by
  simp [encode, String.toList_append]

theorem encode_ofList (cs : List Char) : encode (String.ofList cs) = cs.flatMap encodeChar := by
  simp [encode]

/-- The UTF-8 bytes of a text are its encoding. -/
theorem toUTF8_data (s : String) : s.toUTF8.data.toList = encode s := by
  rw [String.toUTF8_eq_toByteArray, ← String.utf8Encode_toList, List.utf8Encode,
    List.toList_data_toByteArray, encode, funext encodeChar_eq_utf8EncodeChar]

theorem toUTF8_toList (s : String) : s.toUTF8.toList = encode s := by
  rw [Bytes.toList_eq, toUTF8_data]

/-- Characters written as bytes decode back, given fuel for every byte. -/
theorem decodeChars_flatMap_encodeChar (cs : List Char) {fuel : Nat}
    (h : (cs.flatMap encodeChar).length ≤ fuel) :
    decodeChars fuel (cs.flatMap encodeChar) = some cs := by
  induction cs generalizing fuel with
  | nil => cases fuel <;> rfl
  | cons c cs ih =>
    obtain ⟨b, tl, hc⟩ := encodeChar_eq_cons c
    rw [List.flatMap_cons] at h ⊢
    cases fuel with
    | zero => simp [hc] at h
    | succ fuel =>
      have hrest : (cs.flatMap encodeChar).length ≤ fuel := by
        simp only [List.length_append, hc, List.length_cons] at h
        omega
      rw [hc, List.cons_append, decodeChars, ← List.cons_append, ← hc, decodeOne_encodeChar]
      · simp [ih hrest]
      · exact List.cons_ne_nil _ _

/-- The bytes of a text decode to the text. -/
theorem decode?_encode (s : String) : decode? (encode s) = some s := by
  rw [decode?, encode, decodeChars_flatMap_encodeChar _ (Nat.le_refl _)]
  simp

theorem encode_injective : Function.Injective encode := fun s t h =>
  Option.some.inj ((decode?_encode s).symm.trans (h ▸ decode?_encode t))

end Utf8

end Telemetry
