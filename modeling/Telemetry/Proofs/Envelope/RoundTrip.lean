import Mathlib
import Telemetry.Envelope
import Telemetry.Proofs.Crypto.Blocks
import Telemetry.Proofs.Gzip.Stored
import Telemetry.Proofs.Metric.WireText

/-
  Sealed batches open.

  Sealing a batch writes its records as JSON, gzips the text and, given a public key,
  encrypts the member block by block; the headers say which of these was done. Opening reads
  the headers back from their name–value pairs, decrypts with the matching private key,
  inflates within the 16 MiB limit and reads the JSON. Each stage undoes its partner:
  the headers read back (`ofLookup_pairs_gzip`, `ofLookup_pairs_gzip_rsa`), an RSA key of at
  least 67 bytes that opens what it seals opens the body (`Envelope.decrypt_encrypt`), a
  gzip member inflates to its content or fails on the limit
  (`Gzip.decompressWithin_compress_append`), and the JSON of the records reads back when
  their values do (`Record.listOfJson?_readText_listToJsonText`).

  `decodeBatch_sealBatch` puts the stages together. Without the condition on values a batch
  within the limit still opens, to its records with each value as its text reads
  (`decodeBatch_sealBatch_of_fits_as`), and that is not always the value: the double nearest
  `2e-23` is written `2e-23`, which the reader takes to the next double up
  (`decodeBatch_sealBatch_misreads`).
-/

namespace Telemetry

namespace Envelope

/-! ## Headers -/

theorem ofLookup_pairs_gzip :
    Headers.ofLookup (fun name => ({ compressed := true } : Headers).pairs.lookup name) =
      { compressed := true } := by
  cbv

theorem ofLookup_pairs_gzip_rsa :
    Headers.ofLookup
        (fun name => ({ compressed := true, encryption := some "rsa" } : Headers).pairs.lookup name) =
      { compressed := true, encryption := some "rsa" } := by
  cbv

/-! ## The plain body -/

theorem decompress_compress (d : ByteArray) :
    Gzip.decompress (Gzip.compress d) =
      if d.size ≤ Gzip.limit then .ok d else .error (.tooLarge Gzip.limit) := by
  have h := Gzip.decompressWithin_compress_append d ByteArray.empty Gzip.limit
  rwa [ByteArray.append_empty] at h

theorem compress_ne_nil (d : ByteArray) : (Gzip.compress d).toList ≠ [] := by
  rw [Bytes.toList_eq, Gzip.compress_toList]
  simp

/-- The plain body of an inflated gzip member: its content within the limit, the limit's
error past it. -/
def inflated (d : ByteArray) : Except MetricError ByteArray :=
  if d.size ≤ Gzip.limit then .ok d else .error (.decompress (.tooLarge Gzip.limit))

/-- A gzip member sent in the clear opens to its content, inflated. -/
theorem plain_of_compressed {data : ByteArray} {h : Headers} (hc : h.compressed = true)
    (he : h.encryption = none) (key : Option Rsa.PrivateKey) :
    plain (Gzip.compress data) h key = inflated data := by
  simp only [plain, he, hc, if_true, pure, Except.pure, bind, Except.bind, decompress_compress]
  unfold inflated
  by_cases hfit : data.size ≤ Gzip.limit
  · simp only [hfit, if_true]
  · simp only [hfit, if_false]
    rfl

/-- What is sealed with `pub` opens with `key`: nothing is encrypted, or it is encrypted
with the public half of the key. -/
def OpensWith (pub : Option Rsa.PublicKey) (key : Option Rsa.PrivateKey) : Prop :=
  pub = none ∨ pub = key.map Rsa.PrivateKey.toPublic

/-- Text sealed with no key opens, with any key or none, to the text inflated. -/
theorem plain_sealText_none (text : String) (key : Option Rsa.PrivateKey) :
    ∃ env, sealText text none = .ok env ∧
      plain env.body (Headers.ofLookup fun name => env.headers.pairs.lookup name) key =
        inflated text.toUTF8 := by
  refine ⟨⟨Gzip.compress text.toUTF8, { compressed := true }⟩, rfl, ?_⟩
  rw [ofLookup_pairs_gzip]
  exact plain_of_compressed rfl rfl key

/-- **Sealed text opens to its gzip member.** Sealed with no key, or with the public half of
an RSA key of at least 67 bytes that opens what it seals, a text is sealed, and the sealed body
with the headers read back from their pairs opens with the key to the text inflated. -/
theorem plain_sealText (text : String) {key : Option Rsa.PrivateKey}
    (hkey : ∀ k ∈ key, 67 ≤ Rsa.size k.n ∧ k.Opens) {pub : Option Rsa.PublicKey}
    (hpub : OpensWith pub key) :
    ∃ env, sealText text pub = .ok env ∧
      plain env.body (Headers.ofLookup fun name => env.headers.pairs.lookup name) key =
        inflated text.toUTF8 := by
  rcases hpub with rfl | rfl
  · exact plain_sealText_none text key
  cases key with
  | none => exact plain_sealText_none text none
  | some k =>
    obtain ⟨hk, hopens⟩ := hkey k rfl
    obtain ⟨c, henc, hdec⟩ := decrypt_encrypt hk hopens (compress_ne_nil text.toUTF8)
    refine ⟨⟨ByteArray.mk c.toArray, { compressed := true, encryption := some "rsa" }⟩, ?_, ?_⟩
    · simp only [sealText, Option.map_some, bind, Except.bind, henc]
      rfl
    · rw [ofLookup_pairs_gzip_rsa]
      -- the scheme is `rsa`, and decryption gives back the member: the clear case is left
      have hdata : ByteArray.mk (Gzip.compress text.toUTF8).toList.toArray =
          Gzip.compress text.toUTF8 := by
        rw [Bytes.toList_eq, Array.toArray_toList]
      have hscheme : Headers.lowerAscii "rsa" = "rsa" := by cbv
      have hbytes : (ByteArray.mk c.toArray).toList = c := by
        rw [Bytes.toList_eq, List.toList_toArray]
      rw [← @plain_of_compressed text.toUTF8 { compressed := true } rfl rfl (some k)]
      simp only [plain, hscheme, beq_self_eq_true, if_true, hbytes, hdec, pure, Except.pure,
        bind, Except.bind, hdata]

/-! ## Records -/

theorem decodeBatch_of_plain {body : ByteArray} {h : Headers} {key : Option Rsa.PrivateKey}
    {text : String} (hp : plain body h key = .ok text.toUTF8) {rs : List Record}
    (hrs : (Json.readText? text).bind Record.listOfJson? = some rs) :
    decodeBatch body h key = .ok rs := by
  obtain ⟨j, hj, hlist⟩ := Option.bind_eq_some_iff.1 hrs
  have hjson : json text.toUTF8 = .ok j := by
    rw [json, Utf8.toUTF8_toList, ← Utf8.toUTF8_toList, ← Json.readText?, hj]
  simp only [decodeBatch, hp, bind, Except.bind, hjson, hlist]
  rfl

theorem decodeBatch_of_plain_error {body : ByteArray} {h : Headers} {key : Option Rsa.PrivateKey}
    {e : MetricError} (hp : plain body h key = .error e) :
    decodeBatch body h key = .error e := by
  simp only [decodeBatch, hp]
  rfl

/-- Records whose JSON text is within the inflate limit, sealed, open to themselves with each
value replaced by what its wire text reads as. -/
theorem decodeBatch_sealBatch_of_fits_as {rs : List Record} {g : Binary64 → Binary64}
    (hrs : ∀ r ∈ rs, ∀ x ∈ r.value, x.ReadsAs (g x))
    {key : Option Rsa.PrivateKey} (hkey : ∀ k ∈ key, 67 ≤ Rsa.size k.n ∧ k.Opens)
    {pub : Option Rsa.PublicKey} (hpub : OpensWith pub key)
    (hfit : (Record.listToJsonText rs).toUTF8.size ≤ Gzip.limit) :
    ∃ env, sealBatch rs pub = .ok env ∧
      decodeBatch env.body (Headers.ofLookup fun name => env.headers.pairs.lookup name) key =
        .ok (rs.map fun r => { r with value := r.value.map g }) := by
  obtain ⟨env, hseal, hplain⟩ := plain_sealText (Record.listToJsonText rs) hkey hpub
  refine ⟨env, hseal, ?_⟩
  unfold inflated at hplain
  rw [if_pos hfit] at hplain
  exact decodeBatch_of_plain hplain (Record.listOfJson?_readText_listToJsonText_as hrs)

/-- Records whose JSON text is within the inflate limit, sealed, open back to themselves. -/
theorem decodeBatch_sealBatch_of_fits {rs : List Record} (hrs : ∀ r ∈ rs, r.ValuesReadBack)
    {key : Option Rsa.PrivateKey} (hkey : ∀ k ∈ key, 67 ≤ Rsa.size k.n ∧ k.Opens)
    {pub : Option Rsa.PublicKey} (hpub : OpensWith pub key)
    (hfit : (Record.listToJsonText rs).toUTF8.size ≤ Gzip.limit) :
    ∃ env, sealBatch rs pub = .ok env ∧
      decodeBatch env.body (Headers.ofLookup fun name => env.headers.pairs.lookup name) key =
        .ok rs := by
  simpa using decodeBatch_sealBatch_of_fits_as (g := fun x => x) hrs hkey hpub hfit

/-- **Sealed batches open.** Records sealed with no key, or with the public half of an RSA key
of at least 67 bytes that opens what it seals, are sealed; the sealed body, with the headers
read back from their pairs, opens with the key to the same records when their JSON text is
within the 16 MiB inflate limit, and fails with that limit otherwise. This holds whenever the
wire text of each value reads back as the value. -/
theorem decodeBatch_sealBatch {rs : List Record} (hrs : ∀ r ∈ rs, r.ValuesReadBack)
    {key : Option Rsa.PrivateKey} (hkey : ∀ k ∈ key, 67 ≤ Rsa.size k.n ∧ k.Opens) :
    ∃ env, sealBatch rs (key.map Rsa.PrivateKey.toPublic) = .ok env ∧
      decodeBatch env.body (Headers.ofLookup fun name => env.headers.pairs.lookup name) key =
        if (Record.listToJsonText rs).toUTF8.size ≤ Gzip.limit then .ok rs
        else .error (.decompress (.tooLarge Gzip.limit)) := by
  obtain ⟨env, hseal, hplain⟩ := plain_sealText (Record.listToJsonText rs) hkey (.inr rfl)
  refine ⟨env, hseal, ?_⟩
  unfold inflated at hplain
  split
  · rename_i hfit
    rw [if_pos hfit] at hplain
    exact decodeBatch_of_plain hplain (Record.listOfJson?_readText_listToJsonText hrs)
  · rename_i hbig
    rw [if_neg hbig] at hplain
    exact decodeBatch_of_plain_error hplain

/-- A gauge of `1.5` sealed without a key opens to itself. -/
theorem decodeBatch_sealBatch_gauge :
    (∀ r ∈ [({ id := "A", type := "gauge", value := some ⟨4609434218613702656⟩ } : Record)],
        r.ValuesReadBack) ∧
      (∀ k ∈ (none : Option Rsa.PrivateKey), 67 ≤ Rsa.size k.n ∧ k.Opens) ∧
      ∃ env, sealBatch [{ id := "A", type := "gauge", value := some ⟨4609434218613702656⟩ }]
          none = .ok env ∧
        decodeBatch env.body (Headers.ofLookup fun name => env.headers.pairs.lookup name) none =
          if (Record.listToJsonText
              [{ id := "A", type := "gauge", value := some ⟨4609434218613702656⟩ }]).toUTF8.size ≤
              Gzip.limit then
            .ok [{ id := "A", type := "gauge", value := some ⟨4609434218613702656⟩ }]
          else .error (.decompress (.tooLarge Gzip.limit)) := by
  have hvals : ∀ r ∈ [({ id := "A", type := "gauge", value := some ⟨4609434218613702656⟩ } :
      Record)], r.ValuesReadBack := by
    simp only [List.mem_singleton, forall_eq, Record.ValuesReadBack, Option.mem_def,
      Option.some.injEq, forall_eq']
    unfold Binary64.ReadsBack
    decide +kernel
  have hkey : ∀ k ∈ (none : Option Rsa.PrivateKey), 67 ≤ Rsa.size k.n ∧ k.Opens := by
    simp
  exact ⟨hvals, hkey, decodeBatch_sealBatch hvals hkey⟩

/-- The double nearest `2e-23` (the one read from `200e-25`) is written `2e-23`, which reads
as the next double up: a gauge holding it is sealed and opens as a different gauge. -/
theorem decodeBatch_sealBatch_misreads :
    ∃ env, sealBatch [{ id := "A", type := "gauge", value := some ⟨4267210894830907985⟩ }]
        none = .ok env ∧
      decodeBatch env.body (Headers.ofLookup fun name => env.headers.pairs.lookup name) none =
        .ok [{ id := "A", type := "gauge", value := some ⟨4267210894830907986⟩ }] := by
  have hreads : (⟨4267210894830907985⟩ : Binary64).ReadsAs ⟨4267210894830907986⟩ := by
    unfold Binary64.ReadsAs
    decide +kernel
  have hfit : (Record.listToJsonText
      [{ id := "A", type := "gauge", value := some ⟨4267210894830907985⟩ }]).toUTF8.size ≤
      Gzip.limit := by
    decide +kernel
  have hkey : ∀ k ∈ (none : Option Rsa.PrivateKey), 67 ≤ Rsa.size k.n ∧ k.Opens := by
    simp
  -- the batch opens as every batch does, to its values as their texts read
  exact decodeBatch_sealBatch_of_fits_as (g := fun _ => ⟨4267210894830907986⟩)
    (by simpa using hreads) hkey (.inr rfl) hfit

end Envelope

end Telemetry
