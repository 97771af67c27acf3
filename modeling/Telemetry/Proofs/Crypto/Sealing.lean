import Mathlib
import Telemetry.Proofs.Crypto.Oaep

/-
  Sealing and opening a body, for every key size.

  `Envelope.encrypt` cuts a body into chunks of `max (k - 66) 1` bytes, for a modulus of `k`
  bytes, and seals each into a block of `k` bytes; `Envelope.decrypt` cuts a ciphertext into
  `k`-byte blocks and opens each. A body of `n` bytes has `⌈n / len⌉` chunks
  (`Rsa.length_chunks`). With `k ≥ 67` a valid key opens what it seals
  (`Rsa.PrivateKey.Valid.opens`), so the body seals into that many blocks and opens back; the
  empty body seals to the empty ciphertext, which no key opens. With `k ≤ 66` not even one
  byte fits a block, and sealing a non-empty body fails. Opening succeeds exactly when the
  ciphertext is a positive multiple of `k` bytes and every block opens
  (`decrypt_eq_ok_iff`). `encrypt_decrypt_by_modulus_size` puts the four together.

  `Rsa.sampleKey` is a valid key of 532 bits: its primes are certified by Lucas's test, the
  powers evaluated by the kernel, and the statement is checked on it.
-/

namespace Telemetry

namespace Rsa

/-! ## How many chunks -/

/-- One chunk of `len` bytes taken off a non-empty list leaves one chunk fewer, rounding up. -/
theorem ceilDiv_drop {n len : Nat} (hlen : 0 < len) (hn : 0 < n) :
    (n - len + len - 1) / len + 1 = (n + len - 1) / len := by
  rcases Nat.lt_or_ge n len with hlt | hge
  · -- the list fits one chunk, and nothing is left
    have hone : (n + len - 1) / len = 1 := Nat.div_eq_of_lt_le (by omega) (by omega)
    rw [Nat.div_eq_of_lt (by omega : n - len + len - 1 < len), hone]
  · rw [show n + len - 1 = n - len + len - 1 + len by omega, Nat.add_div_right _ hlen]

/-- With fuel above the length, cutting gives `⌈|bs| / len⌉` chunks. -/
theorem length_chunks_go {len : Nat} (hlen : 0 < len) {bs : List UInt8} {fuel : Nat}
    (hf : bs.length < fuel) : (chunks.go len bs fuel).length = (bs.length + len - 1) / len := by
  induction fuel generalizing bs with
  | zero => omega
  | succ fuel ih =>
    rw [chunks_go_succ]
    cases bs with
    | nil =>
      simp only [List.isEmpty_nil, if_true, List.length_nil, Nat.zero_add]
      exact (Nat.div_eq_of_lt (by omega)).symm
    | cons b bs' =>
      have hrest : ((b :: bs').drop len).length < fuel := by
        simp only [List.length_drop, List.length_cons] at hf ⊢
        omega
      simp only [List.isEmpty_cons, Bool.false_eq_true, if_false, List.length_cons]
      rw [ih hrest, List.length_drop, List.length_cons]
      exact ceilDiv_drop hlen (Nat.succ_pos _)

theorem length_chunks {len : Nat} (hlen : 0 < len) (bs : List UInt8) :
    (chunks len bs).length = (bs.length + len - 1) / len :=
  length_chunks_go hlen (Nat.lt_succ_self _)

/-- A non-empty list's first chunk is its first `len` bytes. -/
theorem chunks_of_ne_nil (len : Nat) {bs : List UInt8} (h : bs ≠ []) :
    ∃ rest, chunks len bs = bs.take len :: rest := by
  cases bs with
  | nil => contradiction
  | cons b bs => exact ⟨_, chunks_go_succ len (b :: bs) _⟩

/-- Below 67 bytes of modulus no message fits a block: sealing one fails. -/
theorem encryptBlock_error_of_size_le {key : PublicKey} (hk : size key.n ≤ 66)
    {msg : List UInt8} (hm : msg ≠ []) : ∃ f, key.encryptBlock msg = .error f := by
  have hlong : msg.length + 66 > size key.n := by
    have := List.length_pos_of_ne_nil hm
    omega
  unfold PublicKey.encryptBlock
  cases hs : checkShape key.n key.e with
  | error f => exact ⟨f, rfl⟩
  | ok u =>
    refine ⟨.messageTooLong, ?_⟩
    simp only [bind, Except.bind, gt_iff_lt, hlong, if_true]
    rfl

/-! ## A key pair -/

/-- `a ^ e ≡ 1 (mod p)` in `ZMod p` is `powMod a e p = 1`. -/
theorem natCast_pow_eq_one_iff {p a e : Nat} (hp : 1 < p) :
    (a : ZMod p) ^ e = 1 ↔ powMod a e p = 1 := by
  rw [← Nat.cast_pow, ← ZMod.natCast_mod, powMod_eq, ← Nat.cast_one,
    ZMod.natCast_eq_natCast_iff', Nat.mod_mod, Nat.mod_eq_of_lt hp]

/-- Lucas's test for `p = 2^a·3^b + 1`, whose only prime factors of `p - 1` are 2 and 3. -/
theorem prime_of_lucas {p a b : Nat} (w : Nat) (hp : p = 2 ^ a * 3 ^ b + 1)
    (hone : powMod w (p - 1) p = 1) (htwo : powMod w ((p - 1) / 2) p ≠ 1)
    (hthree : powMod w ((p - 1) / 3) p ≠ 1) : p.Prime := by
  have hp1 : 1 < p := by
    have : 0 < 2 ^ a * 3 ^ b := by positivity
    omega
  refine lucas_primality p (w : ZMod p) ((natCast_pow_eq_one_iff hp1).2 hone) ?_
  intro r hr hdvd
  rw [Ne, natCast_pow_eq_one_iff hp1]
  rw [hp, Nat.add_sub_cancel] at hdvd
  -- a prime dividing `2^a·3^b` is 2 or 3
  rcases (Nat.Prime.dvd_mul hr).1 hdvd with h | h
  · rw [(Nat.prime_dvd_prime_iff_eq hr Nat.prime_two).1 (hr.dvd_of_dvd_pow h)]
    exact htwo
  · rw [(Nat.prime_dvd_prime_iff_eq hr Nat.prime_three).1 (hr.dvd_of_dvd_pow h)]
    exact hthree

/-- A key of 532 bits (67 bytes) with primes `2^258·3^5 + 1` and `2^128·3^87 + 1`. -/
def sampleKey : PrivateKey where
  n := 12380373885301103270504823670158409746291633498463165198122318583897773514293023544201167020312599100014122935761156963976645366431925128123325868719713275609089
  e := 65537
  d := 83772321544814383074817857189645129168645682845253009156882670210647113637501094558584433275049725895045952697001771009
  p := 112549910738671341951710997428444646433378425095002628246352771655691562010017793
  q := 109998966716615045828479067262615589896309804762485153014844512017459843245801473

theorem sampleKey_valid : sampleKey.Valid where
  checked := by decide +kernel
  prime_p := prime_of_lucas 5 (a := 258) (b := 5) (by decide +kernel) (by decide +kernel)
    (by decide +kernel) (by decide +kernel)
  prime_q := prime_of_lucas 5 (a := 128) (b := 87) (by decide +kernel) (by decide +kernel)
    (by decide +kernel) (by decide +kernel)
  distinct := by decide +kernel

end Rsa

namespace Envelope

open Rsa

/-! ## Sealing and opening by key size -/

theorem encrypt_nil (key : PublicKey) : encrypt key [] = .ok [] := by
  rw [encrypt_eq]
  rfl

/-- A key of at most 66 bytes seals no non-empty body; the failure is reported as internal. -/
theorem encrypt_error_of_size_le {key : PublicKey} (hk : size key.n ≤ 66) {plain : List UInt8}
    (hp : plain ≠ []) : ∃ r, encrypt key plain = .error (.internal r) := by
  obtain ⟨rest, hc⟩ := chunks_of_ne_nil (max (size key.n - 66) 1) hp
  have htake : plain.take (max (size key.n - 66) 1) ≠ [] := by
    simp only [ne_eq, List.take_eq_nil_iff, not_or]
    exact ⟨by omega, hp⟩
  obtain ⟨f, hf⟩ := encryptBlock_error_of_size_le hk htake
  refine ⟨"encrypt: " ++ f.text, ?_⟩
  rw [encrypt_eq, hc, List.mapM_cons, hf]
  rfl

/-- A body of `n` bytes seals into `⌈n / (k - 66)⌉` blocks of `k` bytes. -/
theorem length_encrypt {key : PrivateKey} (hk : 67 ≤ size key.n) (h : key.Opens)
    (plain : List UInt8) :
    ∃ c, encrypt key.toPublic plain = .ok c ∧
      c.length = (plain.length + (size key.n - 66) - 1) / (size key.n - 66) * size key.n := by
  obtain ⟨cs, hR, henc⟩ := encrypt_eq_ok hk h plain
  refine ⟨cs.flatten, henc, ?_⟩
  rw [List.length_flatten, List.map_congr_left (length_of_sealed hR), List.map_const',
    List.sum_replicate_nat, ← hR.length_eq, length_chunks (by omega)]

/-- **Sealing and opening, by key size.** For a valid key pair with a modulus of `k` bytes:
with `k ≥ 67` a body of `n` bytes seals into `⌈n / (k - 66)⌉ · k` bytes, which open back to
it when it is non-empty, while the empty body seals to nothing, which fails to open with the
length error; with `k ≤ 66` sealing a non-empty body fails as internal. Opening succeeds
exactly on a positive multiple of `k` bytes whose every block opens, and gives the blocks'
messages in order. -/
theorem encrypt_decrypt_by_modulus_size (key : PrivateKey) (hv : key.Valid)
    (plain : List UInt8) :
    (67 ≤ size key.n →
      ∃ c, encrypt key.toPublic plain = .ok c ∧
        c.length = (plain.length + (size key.n - 66) - 1) / (size key.n - 66) * size key.n ∧
        (plain ≠ [] → decrypt key c = .ok plain) ∧
        (plain = [] → c = [] ∧ decrypt key c =
          .error (.decrypt ("ciphertext length 0 is not a multiple of " ++
            toString (size key.n))))) ∧
    (size key.n ≤ 66 → plain ≠ [] → ∃ r, encrypt key.toPublic plain = .error (.internal r)) ∧
    (∀ cipher out, decrypt key cipher = .ok out ↔
      cipher ≠ [] ∧ cipher.length % size key.n = 0 ∧
        ∃ outs, List.Forall₂ (fun b o => key.decryptBlock b = .ok o)
          (chunks (size key.n) cipher) outs ∧ out = outs.flatten) := by
  refine ⟨fun hk => ?_, fun hk hp => encrypt_error_of_size_le hk hp,
    fun _ _ => decrypt_eq_ok_iff⟩
  obtain ⟨c, henc, hlen⟩ := length_encrypt hk hv.opens plain
  refine ⟨c, henc, hlen, fun hp => ?_, fun hp => ?_⟩
  · obtain ⟨c', henc', hdec⟩ := decrypt_encrypt hk hv.opens hp
    rw [henc, Except.ok.injEq] at henc'
    rwa [henc']
  · subst hp
    rw [encrypt_nil, Except.ok.injEq] at henc
    subst henc
    exact ⟨rfl, decrypt_of_bad_length (Or.inl rfl)⟩

theorem encrypt_decrypt_by_modulus_size_sampleKey :
    sampleKey.Valid ∧
    (67 ≤ size sampleKey.n →
      ∃ c, encrypt sampleKey.toPublic [0x61, 0x62] = .ok c ∧
        c.length = (([0x61, 0x62] : List UInt8).length + (size sampleKey.n - 66) - 1) /
          (size sampleKey.n - 66) * size sampleKey.n ∧
        (([0x61, 0x62] : List UInt8) ≠ [] → decrypt sampleKey c = .ok [0x61, 0x62]) ∧
        (([0x61, 0x62] : List UInt8) = [] → c = [] ∧ decrypt sampleKey c =
          .error (.decrypt ("ciphertext length 0 is not a multiple of " ++
            toString (size sampleKey.n))))) ∧
    (size sampleKey.n ≤ 66 → ([0x61, 0x62] : List UInt8) ≠ [] →
      ∃ r, encrypt sampleKey.toPublic [0x61, 0x62] = .error (.internal r)) ∧
    (∀ cipher out, decrypt sampleKey cipher = .ok out ↔
      cipher ≠ [] ∧ cipher.length % size sampleKey.n = 0 ∧
        ∃ outs, List.Forall₂ (fun b o => sampleKey.decryptBlock b = .ok o)
          (chunks (size sampleKey.n) cipher) outs ∧ out = outs.flatten) :=
  ⟨sampleKey_valid, encrypt_decrypt_by_modulus_size sampleKey sampleKey_valid [0x61, 0x62]⟩

end Envelope

end Telemetry
