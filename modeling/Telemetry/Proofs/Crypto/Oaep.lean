import Mathlib
import Telemetry.Proofs.Crypto.KeyPair
import Telemetry.Proofs.Crypto.Blocks
import Telemetry.Proofs.Metric.Signature

/-
  OAEP padding reads back, and a valid key opens every block it seals.

  A message of at most `k - 66` bytes is padded to `k` bytes: a zero byte, the masked seed,
  and the masked data block holding the label hash, zeros, a one and the message
  (`length_oaepEncode`). A mask is a bytewise exclusive or with MGF1 output of exactly the
  length asked (`length_mgf1`), and masking twice with one mask gives the bytes back
  (`xorBytes_xorBytes`). Decoding therefore unmasks the seed, then the data block, and finds
  the label hash, the run of zeros and the one before the message (`oaepDecode_oaepEncode`).

  The padded block starts with a zero byte, so as a number it lies below `256 ^ (k - 1)`,
  which is at most the modulus. Its public power lies below the modulus, so fits `k` bytes, and
  the private operation brings it back (`PrivateKey.Valid.raw_powMod`). Every check of block
  decryption then passes (`decryptBlock_encryptBlock`), which is `PrivateKey.Valid.opens`: a
  valid key opens what its public half seals.
-/

namespace Telemetry

namespace Rsa

/-! ## Masks -/

theorem length_xorBytes (a b : List UInt8) : (xorBytes a b).length = min a.length b.length := by
  simp [xorBytes]

/-- Masking twice with the same mask gives the bytes back. -/
theorem xorBytes_xorBytes {a b : List UInt8} (h : a.length ≤ b.length) :
    xorBytes (xorBytes a b) b = a := by
  induction a generalizing b with
  | nil => rfl
  | cons x a ih =>
    cases b with
    | nil => simp at h
    | cons y b =>
      simp only [xorBytes, List.zipWith_cons_cons, UInt8.xor_assoc, UInt8.xor_self,
        UInt8.xor_zero, List.cons.injEq, true_and]
      exact ih (by simpa using h)

/-- MGF1 gives exactly the length asked: enough digests of 32 bytes, cut. -/
theorem length_mgf1 (seed : List UInt8) (len : Nat) : (mgf1 seed len).length = len := by
  simp only [mgf1, List.length_take, List.length_flatMap, Sha256.length_digest,
    List.map_const', List.length_range, List.sum_replicate, smul_eq_mul]
  omega

theorem length_labelHash : labelHash.length = 32 := Sha256.length_digest _

theorem length_seed : seed.length = 32 := rfl

/-! ## Padding -/

/-- The run of zeros before the one that starts the message. -/
theorem takeWhile_zeros (z : Nat) (rest : List UInt8) :
    (List.replicate z (0 : UInt8) ++ 1 :: rest).takeWhile (· == 0) = List.replicate z 0 := by
  induction z with
  | zero => rfl
  | succ z ih => simp [List.replicate_succ, ih]

/-- The data block: the label hash, zeros, a one and the message, `k - 33` bytes. -/
theorem length_dataBlock {k : Nat} {msg : List UInt8} (hk : msg.length + 66 ≤ k) :
    (labelHash ++ List.replicate (k - msg.length - 66) 0 ++ [1] ++ msg).length = k - 33 := by
  simp only [List.length_append, length_labelHash, List.length_replicate, List.length_singleton]
  omega

section Padding

variable {k : Nat} {seed msg : List UInt8} (hseed : seed.length = 32)
  (hk : msg.length + 66 ≤ k)
include hseed hk

theorem length_oaepEncode : (oaepEncode k seed msg).length = k := by
  have hdb := length_dataBlock hk
  simp only [oaepEncode, List.length_cons, List.length_append, length_xorBytes, length_mgf1,
    hseed, hdb]
  omega

/-- **OAEP padding reads back.** -/
theorem oaepDecode_oaepEncode : oaepDecode k (oaepEncode k seed msg) = some msg := by
  have hdb := length_dataBlock hk
  -- unmasking the seed, then the data block, gives them back
  have hmaskedDb : (xorBytes (labelHash ++ List.replicate (k - msg.length - 66) 0 ++ [1] ++ msg)
      (mgf1 seed (k - 33))).length = k - 33 := by
    rw [length_xorBytes, length_mgf1, hdb, min_self]
  have hmaskedSeed : (xorBytes seed (mgf1 (xorBytes
      (labelHash ++ List.replicate (k - msg.length - 66) 0 ++ [1] ++ msg)
      (mgf1 seed (k - 33))) 32)).length = 32 := by
    simp [length_xorBytes, length_mgf1, hseed]
  have hdata : (labelHash ++ List.replicate (k - msg.length - 66) 0 ++ [1] ++ msg) =
      labelHash ++ (List.replicate (k - msg.length - 66) 0 ++ 1 :: msg) := by
    simp
  simp only [oaepEncode, oaepDecode, List.take_left' hmaskedSeed, List.drop_left' hmaskedSeed,
    List.cons_append]
  rw [xorBytes_xorBytes (by simp [length_mgf1, hseed]),
    xorBytes_xorBytes (by rw [length_mgf1, hdb]), hdata,
    List.drop_left' length_labelHash, List.take_left' length_labelHash, takeWhile_zeros,
    List.length_replicate, List.drop_left' (List.length_replicate ..)]
  simp

end Padding

/-! ## One block -/

/-- **A valid key opens what it seals.** A message that fits one block under a valid key is
sealed by the public half into a block that the key opens back to the message. -/
theorem decryptBlock_encryptBlock {key : PrivateKey} (hv : key.Valid) {msg : List UInt8}
    (hlen : msg.length + 66 ≤ size key.n) :
    ∃ c, key.toPublic.encryptBlock msg = .ok c ∧ key.decryptBlock c = .ok msg := by
  have hn : key.n ≠ 0 := hv.n_pos.ne'
  obtain ⟨hlow, hhigh⟩ := size_bounds hn
  have hem := length_oaepEncode length_seed hlen
  -- the padded block starts with a zero byte, so as a number it lies below the modulus
  have hmsg : Der.bigEndian (oaepEncode (size key.n) seed msg) < key.n := by
    have hlt := bigEndian_lt (oaepEncode (size key.n) seed msg).tail
    rw [List.length_tail, hem] at hlt
    have hzero : oaepEncode (size key.n) seed msg =
        0 :: (oaepEncode (size key.n) seed msg).tail := rfl
    rw [hzero, bigEndian_zero_cons]
    exact hlt.trans_le hlow
  set m := Der.bigEndian (oaepEncode (size key.n) seed msg)
  have hc : powMod m key.e key.n < key.n := powMod_lt hv.n_pos _ _
  have hbig : Der.bigEndian (toBytes (powMod m key.e key.n) (size key.n)) =
      powMod m key.e key.n := by
    rw [bigEndian_toBytes, Nat.mod_eq_of_lt (hc.trans hhigh)]
  refine ⟨toBytes (powMod m key.e key.n) (size key.n), ?_, ?_⟩
  · simp only [PublicKey.encryptBlock, PrivateKey.toPublic, hv.shape, bind, Except.bind,
      gt_iff_lt, not_lt.2 hlen, if_false, pure, Except.pure]
    rfl
  · have hcn : ¬ key.n ≤ powMod m key.e key.n := not_le.2 hc
    have hfits : ¬ 256 ^ size key.n ≤ m := not_le.2 (hmsg.trans hhigh)
    have hback : toBytes m (size key.n) = oaepEncode (size key.n) seed msg := by
      have h := toBytes_bigEndian (oaepEncode (size key.n) seed msg)
      rwa [hem] at h
    simp [PrivateKey.decryptBlock, hbig, hcn, hv.raw_powMod hmsg, hfits, hback,
      oaepDecode_oaepEncode length_seed hlen, show ¬size key.n < 66 by omega]

/-- A valid key opens every block its public half seals. -/
theorem PrivateKey.Valid.opens {key : PrivateKey} (hv : key.Valid) : key.Opens :=
  fun _ hlen => decryptBlock_encryptBlock hv hlen

end Rsa

end Telemetry
