import Mathlib
import Telemetry.Store.Basic
import Telemetry.Proofs.Store.Snapshot

/-
  Signed records pass the check of a server that holds the same signer.

  A signature is the hex text of an HMAC-SHA-256 tag. The tag is 32 bytes whatever the key
  and the message (`length_hmac`), so a signature is never empty; hex digits are not blank,
  so trimming keeps a signature, and it reads back as its tag (`Hex.decode?_encode`). Hence
  `Integrity.check_toRecord`: a value's record signed with a server's own signer passes that
  server's check, whether or not it requires hashes.
-/

namespace Telemetry

namespace Sha256

theorem size_compress (h : Array UInt32) (block : List UInt8) : (compress h block).size = 8 := by
  rfl

/-- The state stays eight words through any number of blocks. -/
theorem size_blocks (n : Nat) : ∀ (h : Array UInt32) (bs : List UInt8), h.size = 8 →
    (blocks h n bs).size = 8 := by
  induction n with
  | zero => exact fun _ _ hh => hh
  | succ n ih =>
    intro h bs hh
    rw [blocks]
    split
    · exact hh
    · exact ih _ _ (size_compress h _)

theorem length_bigEndian (v n : Nat) : (bigEndian v n).length = n := by
  simp [bigEndian]

/-- A digest is eight big-endian words. -/
theorem length_digest (msg : List UInt8) : (digest msg).length = 32 := by
  have hsize := size_blocks ((pad msg).length / 64) initial (pad msg) rfl
  simp only [digest, List.length_flatMap, length_bigEndian, List.map_const', List.sum_replicate,
    Array.length_toList, hsize, smul_eq_mul]

theorem length_hmac (key msg : List UInt8) : (hmac key msg).length = 32 :=
  length_digest _

end Sha256

namespace Text

/-- Trimming keeps a text with no blank character. -/
theorem trim_of_not_blank {s : String} (h : ∀ c ∈ s.toList, isBlank c = false) : trim s = s := by
  have hkeep : ∀ l : List Char, (∀ c ∈ l, isBlank c = false) → l.dropWhile isBlank = l :=
    fun l hl => List.dropWhile_eq_self_iff.2 fun hpos => by
      simpa using hl _ (List.getElem_mem hpos)
  unfold trim
  rw [hkeep s.toList h, hkeep s.toList.reverse (by simpa using h), List.reverse_reverse,
    String.ofList_toList]

end Text

namespace Hex

theorem digitValue?_digitChar : ∀ n, n < 16 → digitValue? (digitChar n) = some n := by
  decide

theorem isBlank_digitChar : ∀ n, n < 16 → Text.isBlank (digitChar n) = false := by
  decide

/-- Reading back the two digits of a byte gives the byte. -/
theorem decodeChars_byteChars (b : UInt8) (rest : List Char) :
    decodeChars (byteChars b ++ rest) = (decodeChars rest).map (b :: ·) := by
  have hlt : b.toNat < 256 := UInt8.toNat_lt b
  have hhi := digitValue?_digitChar (b.toNat / 16) (by omega)
  have hlo := digitValue?_digitChar (b.toNat % 16) (by omega)
  have hb : (b.toNat / 16 * 16 + b.toNat % 16).toUInt8 = b := by
    rw [Nat.div_add_mod']
    exact UInt8.ofNat_toNat
  cases h : decodeChars rest <;>
    simp only [byteChars, List.cons_append, List.nil_append, decodeChars, hhi, hlo, h, hb,
      Option.bind_eq_bind, Option.bind_some, Option.bind_none, Option.map_some, Option.map_none,
      Option.pure_def]

theorem decodeChars_flatMap_byteChars (bs : List UInt8) :
    decodeChars (bs.flatMap byteChars) = some bs := by
  induction bs with
  | nil => rfl
  | cons b bs ih => rw [List.flatMap_cons, decodeChars_byteChars, ih, Option.map_some]

/-- Hex text reads back as its bytes. -/
theorem decode?_encode (bs : List UInt8) : decode? (encode bs) = some bs := by
  rw [decode?, encode, String.toList_ofList]
  exact decodeChars_flatMap_byteChars bs

theorem not_blank_of_mem_encode {bs : List UInt8} {c : Char} (h : c ∈ (encode bs).toList) :
    Text.isBlank c = false := by
  simp only [encode, String.toList_ofList, List.mem_flatMap, byteChars, List.mem_cons,
    List.not_mem_nil, or_false] at h
  obtain ⟨b, -, rfl | rfl⟩ := h
  · exact isBlank_digitChar _ (by have := UInt8.toNat_lt b; omega)
  · exact isBlank_digitChar _ (Nat.mod_lt _ (by decide))

theorem trim_encode (bs : List UInt8) : Text.trim (encode bs) = encode bs :=
  Text.trim_of_not_blank fun _ => not_blank_of_mem_encode

theorem isEmpty_encode {bs : List UInt8} (h : bs ≠ []) : (encode bs).isEmpty = false := by
  obtain ⟨b, bs, rfl⟩ := List.exists_cons_of_ne_nil h
  simp [encode, byteChars]

end Hex

namespace Signer

variable (signer : Signer)

/-- A signature is never empty. -/
theorem isEmpty_sign (message : String) : (signer.sign message).isEmpty = false := by
  apply Hex.isEmpty_encode
  rw [← List.length_pos_iff, Sha256.length_hmac]
  decide

theorem hash_toRecord (v : Value) (n : String) :
    (v.toRecord n signer).hash = signer.sign (v.canonicalMessage n) := by
  cases v <;> rfl

/-- A finite value's record passes the check of the signer that signed it. -/
theorem verify_toRecord {v : Value} (hv : v.Finite) (n : String) :
    signer.verify (v.toRecord n signer) = true := by
  have hhash := hash_toRecord signer v n
  rw [Signer.verify, Signature.verify, hhash, isEmpty_sign, if_neg Bool.false_ne_true,
    Store.toValue_toRecord hv]
  simp only [Store.id_toRecord, Signer.sign, Signature.sign, Hex.trim_encode, Hex.decode?_encode,
    beq_self_eq_true]

end Signer

namespace Integrity

/-- **A server accepts what its own signer signs.** The record of a finite value signed with
a server's signer passes its check, whether or not hashes are required. -/
theorem check_toRecord (i : Integrity) {v : Value} (hv : v.Finite) (n : String) :
    i.check (v.toRecord n i.signer) = .ok () := by
  simp [check, Signer.hash_toRecord, Signer.isEmpty_sign, Signer.verify_toRecord _ hv]

end Integrity

end Telemetry
