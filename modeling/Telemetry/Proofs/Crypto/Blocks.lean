import Telemetry.Envelope
import Telemetry.Proofs.Except

/-
  Block-by-block RSA encryption of a body.

  `Rsa.chunks len` cuts a byte list into pieces of `len` bytes, the last one possibly shorter,
  and their concatenation is the list again (`flatten_chunks`); cutting a concatenation of
  pieces of exactly `len` bytes gives the pieces back (`chunks_flatten`). The one assumption
  about the cipher is `Rsa.PrivateKey.Opens`: every message short enough for one OAEP block
  is sealed into a block that the private key opens back to the message. From it,
  `decrypt_encrypt`: for a modulus of at least 67 bytes, every non-empty body is sealed, and
  the sealed body opens back to it.
-/

namespace Telemetry

namespace Rsa

/-! ## Cutting into chunks -/

theorem chunks_go_succ (len : Nat) (bs : List UInt8) (fuel : Nat) :
    chunks.go len bs (fuel + 1) =
      if bs.isEmpty then [] else bs.take len :: chunks.go len (bs.drop len) fuel := rfl

/-- With fuel above the length, the chunks concatenate to the input. -/
theorem flatten_chunks_go {len : Nat} (hlen : 0 < len) {bs : List UInt8} {fuel : Nat}
    (hf : bs.length < fuel) : (chunks.go len bs fuel).flatten = bs := by
  induction fuel generalizing bs with
  | zero => omega
  | succ fuel ih =>
    rw [chunks_go_succ]
    cases bs with
    | nil => rfl
    | cons b bs' =>
      have hrest : ((b :: bs').drop len).length < fuel := by
        simp only [List.length_drop, List.length_cons] at hf ⊢
        omega
      simp only [List.isEmpty_cons, Bool.false_eq_true, if_false, List.flatten_cons]
      rw [ih hrest, List.take_append_drop]

theorem flatten_chunks {len : Nat} (hlen : 0 < len) (bs : List UInt8) :
    (chunks len bs).flatten = bs :=
  flatten_chunks_go hlen (Nat.lt_succ_self _)

/-- Every chunk is non-empty and at most `len` bytes long. -/
theorem length_of_mem_chunks_go {len : Nat} (hlen : 0 < len) {bs b : List UInt8} {fuel : Nat}
    (h : b ∈ chunks.go len bs fuel) : b ≠ [] ∧ b.length ≤ len := by
  induction fuel generalizing bs with
  | zero => cases h
  | succ fuel ih =>
    rw [chunks_go_succ] at h
    cases bs with
    | nil => cases h
    | cons x bs' =>
      simp only [List.isEmpty_cons, Bool.false_eq_true, if_false, List.mem_cons] at h
      rcases h with rfl | h
      · refine ⟨?_, List.length_take_le _ _⟩
        obtain ⟨len, rfl⟩ : ∃ l, len = l + 1 := ⟨len - 1, by omega⟩
        simp
      · exact ih h

theorem length_of_mem_chunks {len : Nat} (hlen : 0 < len) {bs b : List UInt8}
    (h : b ∈ chunks len bs) : b ≠ [] ∧ b.length ≤ len :=
  length_of_mem_chunks_go hlen h

/-- Pieces of exactly `len` bytes, concatenated, are cut back into the same pieces. -/
theorem chunks_go_flatten {len : Nat} (hlen : 0 < len) {cs : List (List UInt8)}
    (hcs : ∀ c ∈ cs, c.length = len) {fuel : Nat} (hf : cs.flatten.length < fuel) :
    chunks.go len cs.flatten fuel = cs := by
  induction cs generalizing fuel with
  | nil => cases fuel <;> rfl
  | cons c cs ih =>
    have hc : c.length = len := hcs c (by simp)
    obtain ⟨fuel, rfl⟩ : ∃ f, fuel = f + 1 := ⟨fuel - 1, by simp at hf; omega⟩
    have hne : (c ++ cs.flatten).isEmpty = false := by
      cases c with
      | nil => simp at hc; omega
      | cons => rfl
    rw [List.flatten_cons, chunks_go_succ, hne, if_neg (by simp),
      List.take_append_of_le_length (by omega), List.take_of_length_le (by omega),
      List.drop_append_of_le_length (by omega), List.drop_of_length_le (by omega),
      List.nil_append, ih (fun c' h' => hcs c' (by simp [h'])) (by simp at hf ⊢; omega)]

theorem chunks_flatten {len : Nat} (hlen : 0 < len) {cs : List (List UInt8)}
    (hcs : ∀ c ∈ cs, c.length = len) : chunks len cs.flatten = cs :=
  chunks_go_flatten hlen hcs (Nat.lt_succ_self _)

/-! ## One block -/

@[simp] theorem length_toBytes (v len : Nat) : (toBytes v len).length = len := by
  simp [toBytes]

/-- A sealed block is as long as the modulus. -/
theorem length_of_encryptBlock {key : PublicKey} {msg c : List UInt8}
    (h : key.encryptBlock msg = .ok c) : c.length = size key.n := by
  simp only [PublicKey.encryptBlock, Except.bind_eq_ok] at h
  obtain ⟨_, _, h⟩ := h
  split at h
  · cases h
  · simp only [Except.pure_eq_ok] at h
    rw [← h, length_toBytes]

/-- The assumption on the cipher: every message that fits one OAEP block under the key's
modulus is sealed by the public half into a block that the key opens back to it. -/
def PrivateKey.Opens (key : PrivateKey) : Prop :=
  ∀ msg : List UInt8, msg.length + 66 ≤ size key.n →
    ∃ c, key.toPublic.encryptBlock msg = .ok c ∧ key.decryptBlock c = .ok msg

end Rsa

namespace Envelope

open Rsa

/-! ## A whole body -/

/-- Sealing a body: its chunks sealed one by one, a failure reported as internal. -/
theorem encrypt_eq (key : PublicKey) (plain : List UInt8) :
    encrypt key plain =
      ((chunks (max (size key.n - 66) 1) plain).mapM fun b =>
        (key.encryptBlock b).mapError fun f => MetricError.internal ("encrypt: " ++ f.text)) >>=
        fun cs => pure cs.flatten := by
  unfold encrypt
  dsimp only
  congr
  funext b
  cases key.encryptBlock b <;> rfl

/-- Opening a body of a positive multiple of `k` bytes: its `k`-byte chunks opened one by one. -/
theorem decrypt_eq {key : PrivateKey} {cipher : List UInt8} (hk : 0 < size key.n)
    (hne : cipher ≠ []) (hmul : cipher.length % size key.n = 0) :
    decrypt key cipher =
      ((chunks (size key.n) cipher).mapM fun b =>
        (key.decryptBlock b).mapError fun f => MetricError.decrypt f.text) >>=
        fun ms => pure ms.flatten := by
  have hcond : (cipher.isEmpty || (size key.n != 0 && cipher.length % size key.n != 0) ||
      size key.n == 0) = false := by
    simp [hne, hmul, Nat.pos_iff_ne_zero.1 hk]
  unfold decrypt
  dsimp only
  rw [hcond, if_neg Bool.false_ne_true]
  congr
  funext b
  cases key.decryptBlock b <;> rfl

/-- Every chunk of a body is sealed, into a block that opens back to the chunk. -/
theorem encrypt_eq_ok {key : PrivateKey} (hk : 67 ≤ size key.n) (h : key.Opens)
    (plain : List UInt8) :
    ∃ cs, List.Forall₂ (fun b c => key.toPublic.encryptBlock b = .ok c ∧ key.decryptBlock c = .ok b)
        (chunks (size key.n - 66) plain) cs ∧
      encrypt key.toPublic plain = .ok cs.flatten := by
  have hmax : max (size key.toPublic.n - 66) 1 = size key.n - 66 := by
    simp only [PrivateKey.toPublic]
    omega
  obtain ⟨cs, hm, hR⟩ : ∃ cs, ((chunks (size key.n - 66) plain).mapM fun b =>
      (key.toPublic.encryptBlock b).mapError fun f => MetricError.internal ("encrypt: " ++ f.text)) =
        .ok cs ∧ List.Forall₂ (fun b c => key.toPublic.encryptBlock b = .ok c ∧
          key.decryptBlock c = .ok b) (chunks (size key.n - 66) plain) cs := by
    apply Except.mapM_eq_ok_of_forall
    intro b hb
    obtain ⟨c, hc, hdec⟩ := h b (by have := (length_of_mem_chunks (by omega) hb).2; omega)
    exact ⟨c, by simp [hc], hc, hdec⟩
  refine ⟨cs, hR, ?_⟩
  rw [encrypt_eq, hmax, hm]
  rfl

/-- Sealed blocks are as long as the modulus. -/
theorem length_of_sealed {key : PrivateKey} {bs cs : List (List UInt8)}
    (h : List.Forall₂ (fun b c => key.toPublic.encryptBlock b = .ok c ∧ key.decryptBlock c = .ok b)
      bs cs) : ∀ c ∈ cs, c.length = size key.n := by
  induction h with
  | nil => simp
  | cons hbc _ ih =>
    intro c hc
    rcases List.mem_cons.1 hc with rfl | hc
    · exact length_of_encryptBlock hbc.1
    · exact ih c hc

/-- **Sealed bodies open.** With a modulus of at least 67 bytes and a key that opens what it
seals, every non-empty body is sealed, and the sealed body opens back to it. -/
theorem decrypt_encrypt {key : PrivateKey} (hk : 67 ≤ size key.n) (h : key.Opens)
    {plain : List UInt8} (hp : plain ≠ []) :
    ∃ c, encrypt key.toPublic plain = .ok c ∧ decrypt key c = .ok plain := by
  obtain ⟨cs, hR, henc⟩ := encrypt_eq_ok hk h plain
  refine ⟨cs.flatten, henc, ?_⟩
  have hlen := length_of_sealed hR
  -- a non-empty body has a chunk, and so the sealed body has a block of `k > 0` bytes
  have hne : cs.flatten ≠ [] := by
    cases hcs : cs with
    | nil =>
      rw [hcs, List.forall₂_nil_right_iff] at hR
      exact absurd (by rw [← flatten_chunks (by omega : 0 < size key.n - 66) plain, hR]; rfl) hp
    | cons c cs' =>
      have hc := hlen c (by simp [hcs])
      intro hnil
      simp only [List.flatten_cons, List.append_eq_nil_iff] at hnil
      rw [hnil.1] at hc
      simp at hc
      omega
  have hmul : cs.flatten.length % size key.n = 0 := by
    rw [List.length_flatten, List.map_congr_left hlen, List.map_const', List.sum_replicate_nat,
      Nat.mul_mod_left]
  rw [decrypt_eq (by omega) hne hmul, chunks_flatten (by omega) hlen]
  have hopen : cs.mapM (fun b => (key.decryptBlock b).mapError fun f => MetricError.decrypt f.text) =
      .ok (chunks (size key.n - 66) plain) := by
    rw [Except.mapM_eq_ok]
    exact List.Forall₂.flip (hR.imp fun b c hbc => by simpa [flip] using hbc.2)
  rw [hopen]
  show Except.ok (chunks (size key.n - 66) plain).flatten = _
  rw [flatten_chunks (by omega)]

/-! ## What opening a body needs -/

theorem size_pos (n : Nat) : 0 < size n := by
  unfold size
  omega

/-- A body that is empty, or whose length is no multiple of the key size, is refused for its
length before any block is opened. -/
theorem decrypt_of_bad_length {key : PrivateKey} {cipher : List UInt8}
    (h : cipher = [] ∨ cipher.length % size key.n ≠ 0) :
    decrypt key cipher = .error (.decrypt ("ciphertext length " ++ toString cipher.length ++
      " is not a multiple of " ++ toString (size key.n))) := by
  have hcond : (cipher.isEmpty || (size key.n != 0 && cipher.length % size key.n != 0) ||
      size key.n == 0) = true := by
    rcases h with rfl | h
    · rfl
    · simp [h, Nat.pos_iff_ne_zero.1 (size_pos key.n)]
  unfold decrypt
  simp only [hcond, if_true]
  rfl

/-- **Opening a body, exactly.** It succeeds when the body is a positive multiple of the key
size and each of its `k`-byte blocks opens, and then gives the blocks' messages joined in
order. -/
theorem decrypt_eq_ok_iff {key : PrivateKey} {cipher out : List UInt8} :
    decrypt key cipher = .ok out ↔ cipher ≠ [] ∧ cipher.length % size key.n = 0 ∧
      ∃ outs, List.Forall₂ (fun b o => key.decryptBlock b = .ok o) (chunks (size key.n) cipher)
        outs ∧ out = outs.flatten := by
  by_cases hlen : cipher = [] ∨ cipher.length % size key.n ≠ 0
  · rw [decrypt_of_bad_length hlen]
    constructor
    · intro h
      cases h
    · rintro ⟨hne, hmul, -⟩
      rcases hlen with hlen | hlen <;> contradiction
  · obtain ⟨hne, hmul⟩ : cipher ≠ [] ∧ cipher.length % size key.n = 0 := by
      simpa [not_or] using hlen
    rw [decrypt_eq (size_pos _) hne hmul, Except.bind_eq_ok]
    simp only [Except.mapM_eq_ok, Except.mapError_eq_ok, Except.pure_eq_ok]
    constructor
    · rintro ⟨outs, hall, rfl⟩
      exact ⟨hne, hmul, outs, hall, rfl⟩
    · rintro ⟨-, -, outs, hall, rfl⟩
      exact ⟨outs, hall, rfl⟩

/-- A body whose blocks are opened one by one fails as soon as one of them does not open. -/
theorem decrypt_blocks_eq_error {key : PrivateKey} {cipher : List UInt8}
    (hne : cipher ≠ []) (hmul : cipher.length % size key.n = 0) :
    (∃ e, decrypt key cipher = .error e) ↔
      ∃ b ∈ chunks (size key.n) cipher, ∃ f, key.decryptBlock b = .error f := by
  constructor
  · rintro ⟨e, he⟩
    rw [decrypt_eq (size_pos _) hne hmul, Except.bind_eq_error] at he
    rcases he with he | ⟨_, _, he⟩
    · obtain ⟨pre, b, post, hsplit, -, hb⟩ := Except.mapM_eq_error.1 he
      obtain ⟨f, hf, -⟩ := Except.mapError_eq_error.1 hb
      exact ⟨b, by simp [hsplit], f, hf⟩
    · exact absurd he Except.pure_ne_error
  · rintro ⟨b, hb, f, hf⟩
    have hblock : (key.decryptBlock b).mapError (fun f => MetricError.decrypt f.text) =
        .error (.decrypt f.text) := Except.mapError_eq_error.2 ⟨f, hf, rfl⟩
    obtain ⟨e, he⟩ := Except.mapM_eq_error_of_mem
      (f := fun b => (key.decryptBlock b).mapError fun f => MetricError.decrypt f.text) hb hblock
    rw [decrypt_eq (size_pos _) hne hmul, he]
    exact ⟨e, rfl⟩

/-- Opening a body fails exactly when it is empty, its length is no multiple of the key size,
or one of its `k`-byte blocks does not open. -/
theorem decrypt_eq_error_iff {key : PrivateKey} {cipher : List UInt8} :
    (∃ e, decrypt key cipher = .error e) ↔ cipher = [] ∨ cipher.length % size key.n ≠ 0 ∨
      ∃ b ∈ chunks (size key.n) cipher, ∃ f, key.decryptBlock b = .error f := by
  by_cases hlen : cipher = [] ∨ cipher.length % size key.n ≠ 0
  · rw [decrypt_of_bad_length hlen]
    exact ⟨fun _ => hlen.elim .inl (.inr ∘ .inl), fun _ => ⟨_, rfl⟩⟩
  · obtain ⟨hne, hmul⟩ : cipher ≠ [] ∧ cipher.length % size key.n = 0 := by
      simpa [not_or] using hlen
    rw [decrypt_blocks_eq_error hne hmul]
    simp [hne, hmul]

/-- Every failure to open a body is reported as a decryption failure. -/
theorem decrypt_error_of_decrypt {key : PrivateKey} {cipher : List UInt8} {e : MetricError}
    (h : decrypt key cipher = .error e) : ∃ r, e = .decrypt r := by
  by_cases hlen : cipher = [] ∨ cipher.length % size key.n ≠ 0
  · rw [decrypt_of_bad_length hlen] at h
    cases h
    exact ⟨_, rfl⟩
  · obtain ⟨hne, hmul⟩ : cipher ≠ [] ∧ cipher.length % size key.n = 0 := by
      simpa [not_or] using hlen
    rw [decrypt_eq (size_pos _) hne hmul, Except.bind_eq_error] at h
    rcases h with h | ⟨_, _, h⟩
    · obtain ⟨-, b, -, -, -, hb⟩ := Except.mapM_eq_error.1 h
      obtain ⟨f, -, rfl⟩ := Except.mapError_eq_error.1 hb
      exact ⟨_, rfl⟩
    · exact absurd h Except.pure_ne_error

end Envelope

end Telemetry
