import Mathlib
import Telemetry.Proofs.Envelope.RoundTrip

/-
  How opening a body succeeds or fails.

  Opening runs three stages, each only when the headers ask for it: decryption when the body
  is marked encrypted, inflation when it is marked gzip, then reading JSON of the target type.
  `deciphered` is the first stage alone and `inflatedIf` the second; `plain` is one after the
  other (`plain_eq`), and `decodeWith` adds the third (`decodeBatch` and `decodeRecord` are
  `decodeWith` at their readers). A stage that fails stops the ones after it and reports a
  class of its own, so the class of a failure names the first stage that refused the body:

  * decryption refuses exactly the bodies marked encrypted whose scheme is not `rsa` in any
    case, or for which no key is configured, or whose length is not a positive multiple of
    the key size, or one of whose blocks of that size does not open (`Undecryptable`,
    `deciphered_eq_error_iff`);
  * past it, inflation refuses exactly the bodies marked gzip whose decrypted bytes are no
    gzip member within 16 MiB;
  * past both, reading refuses exactly the bytes that are not JSON of the target type.

  `decodeWith_outcome` puts the three together. `decompress_compress_append` is the law of the
  inflation stage: a gzip member followed by any bytes inflates to its content within the
  limit and fails with the limit's error past it, and opening inherits that law whatever the
  decryption stage did before.
-/

namespace Telemetry

namespace Envelope

open Rsa

/-! ## The stages -/

/-- The decryption stage: the body as it is when not marked encrypted, decrypted with the key
when marked `rsa` in any case, and a decryption failure otherwise. -/
def deciphered (body : ByteArray) (h : Headers) (key : Option PrivateKey) :
    Except MetricError ByteArray :=
  match h.encryption with
  | none => .ok body
  | some scheme =>
    if Headers.lowerAscii scheme == "rsa" then
      match key with
      | some k => (fun out => ByteArray.mk out.toArray) <$> decrypt k body.toList
      | none => .error (.decrypt "payload is encrypted but no private key is configured")
    else .error (.decrypt ("unsupported encryption scheme '" ++ scheme ++ "'"))

/-- The inflation stage: the gzip member's content within the limit when the body is marked
gzip, the bytes as they are otherwise. -/
def inflatedIf (compressed : Bool) (data : ByteArray) : Except MetricError ByteArray :=
  if compressed then (Gzip.decompress data).mapError .decompress else .ok data

/-- Opening a body and reading its JSON as the target type with `read`. -/
def decodeWith {α : Type} (read : Json → Option α) (body : ByteArray) (h : Headers)
    (key : Option PrivateKey) : Except MetricError α := do
  match read (← json (← plain body h key)) with
  | some v => pure v
  | none => throw .malformedJson

theorem decodeBatch_eq_decodeWith (body : ByteArray) (h : Headers) (key : Option PrivateKey) :
    decodeBatch body h key = decodeWith Record.listOfJson? body h key := by
  unfold decodeBatch decodeWith
  congr
  funext data
  congr
  funext j
  cases Record.listOfJson? j <;> rfl

theorem decodeRecord_eq_decodeWith (body : ByteArray) (h : Headers) (key : Option PrivateKey) :
    decodeRecord body h key = decodeWith Record.ofJson? body h key := by
  unfold decodeRecord decodeWith
  congr
  funext data
  congr
  funext j
  cases Record.ofJson? j <;> rfl

/-- The plain body is the decrypted one, inflated when marked gzip. -/
theorem plain_eq (body : ByteArray) (h : Headers) (key : Option PrivateKey) :
    plain body h key = deciphered body h key >>= inflatedIf h.compressed := by
  -- the inflation stage, as a body that is not marked encrypted meets it
  have hinflate : ∀ data, plain data { h with encryption := none } key =
      inflatedIf h.compressed data := by
    intro data
    show (if h.compressed then _ else _) = inflatedIf h.compressed data
    unfold inflatedIf
    split
    · split <;> (rename_i hdata; rw [hdata]; rfl)
    · rfl
  unfold plain deciphered
  cases he : h.encryption with
  | none => exact hinflate body
  | some scheme =>
    dsimp only
    split
    · cases key with
      | none => rfl
      | some k =>
        dsimp only
        cases decrypt k body.toList with
        | error e => rfl
        | ok out => exact hinflate _
    · rfl

theorem plain_of_deciphered {body : ByteArray} {h : Headers} {key : Option PrivateKey}
    {data : ByteArray} (hd : deciphered body h key = .ok data) :
    plain body h key = inflatedIf h.compressed data := by
  rw [plain_eq, hd]
  rfl

theorem plain_of_deciphered_error {body : ByteArray} {h : Headers} {key : Option PrivateKey}
    {e : MetricError} (hd : deciphered body h key = .error e) : plain body h key = .error e := by
  rw [plain_eq, hd]
  rfl

/-- Opening reads the plain body's JSON with `read`. -/
theorem decodeWith_eq {α : Type} (read : Json → Option α) (body : ByteArray) (h : Headers)
    (key : Option PrivateKey) :
    decodeWith read body h key = plain body h key >>= fun data =>
      match (Json.read? data.toList).bind read with
      | some v => .ok v
      | none => .error .malformedJson := by
  unfold decodeWith json
  cases plain body h key with
  | error e => rfl
  | ok data =>
    simp only [bind, Except.bind]
    cases Json.read? data.toList with
    | none => rfl
    | some j =>
      simp only [Option.bind]
      cases read j <;> rfl

/-- Once the plain body is there, opening reads its JSON. -/
theorem decodeWith_of_plain {α : Type} {read : Json → Option α} {body : ByteArray}
    {h : Headers} {key : Option PrivateKey} {data : ByteArray} (hp : plain body h key = .ok data) :
    decodeWith read body h key =
      match (Json.read? data.toList).bind read with
      | some v => .ok v
      | none => .error .malformedJson := by
  rw [decodeWith_eq, hp]
  rfl

/-! ## Decryption -/

/-- Why the decryption stage refuses a body: it is marked encrypted, and the scheme is not
`rsa` in any case, or no key is configured, or the body's length is not a positive multiple
of the key size, or one of its blocks of that size does not open. -/
def Undecryptable (body : ByteArray) (h : Headers) (key : Option PrivateKey) : Prop :=
  ∃ s, h.encryption = some s ∧
    (Headers.lowerAscii s ≠ "rsa" ∨ key = none ∨
      ∃ k ∈ key, body.size = 0 ∨ body.size % size k.n ≠ 0 ∨
        ∃ b ∈ chunks (size k.n) body.toList, ∃ f, k.decryptBlock b = .error f)

/-- The decryption stage fails only with a decryption failure. -/
theorem deciphered_error {body : ByteArray} {h : Headers} {key : Option PrivateKey}
    {e : MetricError} (hd : deciphered body h key = .error e) : ∃ r, e = .decrypt r := by
  unfold deciphered at hd
  cases he : h.encryption with
  | none => simp [he] at hd
  | some scheme =>
    simp only [he] at hd
    split at hd
    · cases key with
      | none =>
        cases hd
        exact ⟨_, rfl⟩
      | some k =>
        rw [Except.map_eq_error] at hd
        exact decrypt_error_of_decrypt hd
    · cases hd
      exact ⟨_, rfl⟩

/-- **The decryption stage refuses exactly the undecryptable bodies.** -/
theorem deciphered_eq_error_iff {body : ByteArray} {h : Headers} {key : Option PrivateKey} :
    (∃ e, deciphered body h key = .error e) ↔ Undecryptable body h key := by
  unfold deciphered Undecryptable
  cases he : h.encryption with
  | none => simp
  | some scheme =>
    simp only [Option.some.injEq, exists_eq_left']
    by_cases hs : Headers.lowerAscii scheme = "rsa"
    · simp only [hs, beq_self_eq_true, if_true, ne_eq, not_true_eq_false, false_or]
      cases key with
      | none => simp
      | some k =>
        have hlen : body.toList.length = body.size := by rw [Bytes.toList_eq, Bytes.size_eq]
        have hnil : body.toList = [] ↔ body.size = 0 := by rw [← hlen, List.length_eq_zero_iff]
        simp only [Except.map_eq_error, decrypt_eq_error_iff, hnil, hlen, ne_eq, Option.mem_def,
          Option.some.injEq, exists_eq_left', reduceCtorEq, false_or]
    · have hne : (Headers.lowerAscii scheme == "rsa") = false := by simpa using hs
      simp only [hne, Bool.false_eq_true, if_false, ne_eq, hs, not_false_eq_true, true_or,
        iff_true]
      exact ⟨_, rfl⟩

/-! ## Inflation -/

theorem inflatedIf_error {compressed : Bool} {data : ByteArray} {e : MetricError}
    (hi : inflatedIf compressed data = .error e) :
    compressed = true ∧ ∃ f, Gzip.decompress data = .error f ∧ e = .decompress f := by
  unfold inflatedIf at hi
  split at hi
  · rename_i hc
    cases hg : Gzip.decompress data with
    | error f =>
      rw [hg] at hi
      cases hi
      exact ⟨hc, f, rfl, rfl⟩
    | ok out =>
      rw [hg] at hi
      cases hi
  · cases hi

theorem inflatedIf_ok {compressed : Bool} {data out : ByteArray}
    (hi : inflatedIf compressed data = .ok out) : compressed = true →
      ∀ f, Gzip.decompress data ≠ .error f := by
  intro hc f hg
  simp [inflatedIf, hc, hg, Except.mapError] at hi

/-- **A gzip member inflates to its content, whatever follows it.** A member written by
`Gzip.compress`, followed by any bytes at all, inflates to its content when that is at most
16 MiB (16777216 bytes), and otherwise fails with the limit's error, whose text names the
limit. Opening a body marked gzip does the same, once the decryption stage has handed it a
member so followed. -/
theorem decompress_compress_append (x t : ByteArray) :
    Gzip.decompress (Gzip.compress x ++ t) =
        (if x.size ≤ 16777216 then .ok x else .error (.tooLarge 16777216)) ∧
      (InflateFault.tooLarge 16777216).text? = some "gzip payload inflates past 16777216 bytes" ∧
      ∀ (body : ByteArray) (h : Headers) (key : Option PrivateKey), h.compressed = true →
        deciphered body h key = .ok (Gzip.compress x ++ t) →
        plain body h key =
          if x.size ≤ 16777216 then .ok x else .error (.decompress (.tooLarge 16777216)) := by
  have hlaw : Gzip.decompress (Gzip.compress x ++ t) =
      if x.size ≤ 16777216 then .ok x else .error (.tooLarge 16777216) :=
    Gzip.decompressWithin_compress_append x t Gzip.limit
  refine ⟨hlaw, rfl, ?_⟩
  intro body h key hc hd
  rw [plain_of_deciphered hd, inflatedIf, hc, if_pos rfl, hlaw]
  split <;> rfl

/-! ## The three stages together -/

/-- A body that the decryption stage refuses is refused with the stage's failure. -/
theorem decodeWith_of_deciphered_error {α : Type} {read : Json → Option α} {body : ByteArray}
    {h : Headers} {key : Option PrivateKey} {e : MetricError}
    (hd : deciphered body h key = .error e) : decodeWith read body h key = .error e := by
  rw [decodeWith_eq, plain_of_deciphered_error hd]
  rfl

/-- A body that passes decryption and that inflation refuses is refused with inflation's
failure. -/
theorem decodeWith_of_inflatedIf_error {α : Type} {read : Json → Option α} {body : ByteArray}
    {h : Headers} {key : Option PrivateKey} {data : ByteArray} {e : MetricError}
    (hd : deciphered body h key = .ok data) (hi : inflatedIf h.compressed data = .error e) :
    decodeWith read body h key = .error e := by
  rw [decodeWith_eq, plain_of_deciphered hd, hi]
  rfl

/-- **How opening a body succeeds or fails.** For a body read as JSON of any target type:
opening fails with a decryption failure exactly when the body is undecryptable, and the
decryption stage passes exactly when it is not; it fails with an inflation failure exactly
when the decrypted body is marked gzip and is no gzip member within the limit; it fails as
malformed exactly when the plain body is not JSON of the target type; it succeeds exactly
when the plain body is; and it fails in no other way. -/
theorem decodeWith_outcome {α : Type} (read : Json → Option α) (body : ByteArray) (h : Headers)
    (key : Option PrivateKey) :
    ((∃ r, decodeWith read body h key = .error (.decrypt r)) ↔ Undecryptable body h key) ∧
    ((∃ data, deciphered body h key = .ok data) ↔ ¬Undecryptable body h key) ∧
    ((∃ f, decodeWith read body h key = .error (.decompress f)) ↔
      ∃ data, deciphered body h key = .ok data ∧ h.compressed = true ∧
        ∃ f, Gzip.decompress data = .error f) ∧
    (decodeWith read body h key = .error .malformedJson ↔
      ∃ data, plain body h key = .ok data ∧ (Json.read? data.toList).bind read = none) ∧
    ((∃ v, decodeWith read body h key = .ok v) ↔
      ∃ data v, plain body h key = .ok data ∧ (Json.read? data.toList).bind read = some v) ∧
    (∀ e, decodeWith read body h key = .error e →
      (∃ r, e = .decrypt r) ∨ (∃ f, e = .decompress f) ∨ e = .malformedJson) := by
  cases hd : deciphered body h key with
  | error e =>
    -- decryption refused the body: every later stage is skipped
    obtain ⟨r, rfl⟩ := deciphered_error hd
    have hund : Undecryptable body h key := deciphered_eq_error_iff.1 ⟨_, hd⟩
    simp [decodeWith_of_deciphered_error hd, hund, plain_of_deciphered_error hd]
  | ok data =>
    have hund : ¬Undecryptable body h key := fun hu =>
      let ⟨_, he⟩ := deciphered_eq_error_iff.2 hu
      by rw [hd] at he; cases he
    cases hi : inflatedIf h.compressed data with
    | error e =>
      -- inflation refused the decrypted body
      obtain ⟨hc, f, hf, rfl⟩ := inflatedIf_error hi
      have hplain : plain body h key = .error (.decompress f) := (plain_of_deciphered hd).trans hi
      simp [decodeWith_of_inflatedIf_error hd hi, hund, hplain, hc, hf]
    | ok out =>
      -- both stages passed: only the JSON remains
      have hplain : plain body h key = .ok out := (plain_of_deciphered hd).trans hi
      have hinflate := inflatedIf_ok hi
      rw [decodeWith_of_plain hplain]
      cases hj : (Json.read? out.toList).bind read with
      | none =>
        simp [hund, hplain, hj]
        exact ⟨hinflate, Option.bind_eq_none_iff.1 hj⟩
      | some v =>
        simp [hund, hplain, hj]
        obtain ⟨j, hjson, hread⟩ := Option.bind_eq_some_iff.1 hj
        exact ⟨hinflate, j, hjson, by simp [hread]⟩

end Envelope

end Telemetry
