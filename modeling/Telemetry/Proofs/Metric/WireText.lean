import Telemetry.Metric.Record
import Telemetry.Proofs.Json.Documents

/-
  Records written as JSON read back.

  The wire text of a record is an object of up to five members in the order of
  `Record.fieldNames`. Its slots (`Record.wireSlots`) hold, name by name, the member's text
  and the document that text reads as, or nothing for an absent member. Members written from
  named slots in the order of distinct names are collected back slot by slot by `Json.fields`
  (`fields_slotMembers`). Every member's text is a written form of its document
  (`Json.Writes`), so the record's text is one, and so is the array of a list of records; read
  back, the documents give the record again (`ofJson?_wireJson`).

  One step is not the reader's to promise: a double is written in its shortest decimal form,
  and the reader builds a double from a 64-bit significand and one rounded power of ten,
  which need not land on the double that was written. `Binary64.ReadsAs x y` says the text of
  `x` reads as `y`: a list of records reads back with each value replaced by what its text
  reads as (`listOfJson?_readText_listToJsonText_as`), and so reads back as it was whenever
  its values do (`Binary64.ReadsBack`, `listOfJson?_readText_listToJsonText`).
-/

namespace Telemetry

namespace Binary64

/-- The wire text of `x` reads back as `x`. -/
def ReadsBack (x : Binary64) : Prop :=
  (Json.readText? x.jsonText).bind Json.asF64? = some x

/-- The document the wire text of `x` reads as (`null` if it reads as none). -/
def wireDoc (x : Binary64) : Json := (Json.readText? x.jsonText).getD .null

theorem wireDoc_eq {x : Binary64} {j : Json} (h : Json.readText? x.jsonText = some j) :
    x.wireDoc = j := by
  simp [wireDoc, h]

/-- The wire text of `x` reads as `y`; `x` reads back when it reads as itself. -/
def ReadsAs (x y : Binary64) : Prop :=
  (Json.readText? x.jsonText).bind Json.asF64? = some y

/-- A double whose wire text reads as a double is written as a number. -/
theorem ReadsAs.number {x y : Binary64} (h : x.ReadsAs y) :
    ∃ s, Json.readText? x.jsonText = some (.number s) ∧ Json.asF64? (.number s) = some y := by
  unfold ReadsAs at h
  cases hj : Json.readText? x.jsonText with
  | none => simp [hj] at h
  | some j =>
    rw [hj, Option.bind_some] at h
    cases j
    case number s => exact ⟨s, rfl, h⟩
    all_goals simp [Json.asF64?] at h

theorem jsonText_of_not_finite {x : Binary64} (h : x.isFinite = false) : x.jsonText = "null" := by
  simp only [isFinite, bne_eq_false_iff_eq] at h
  unfold jsonText view
  by_cases hz : x.fractionField = 0 <;> simp [h, hz]

/-- Only a finite double reads back: the others are written `null`. -/
theorem ReadsBack.isFinite {x : Binary64} (h : x.ReadsBack) : x.isFinite = true := by
  cases hf : x.isFinite with
  | true => rfl
  | false =>
    have hnull : (Json.readText? "null").bind Json.asF64? = none := by decide +kernel
    rw [ReadsBack, jsonText_of_not_finite hf, hnull] at h
    cases h

end Binary64

namespace Json

/-! ## Members written from named slots -/

section Slots

variable {α β : Type}

/-- The named members of the filled slots, in the order of the names. -/
def slotMembers (names : List String) (slots : List (Option α)) : List (String × α) :=
  (names.zip slots).filterMap fun p => p.2.map fun v => (p.1, v)

@[simp] theorem slotMembers_nil (slots : List (Option α)) : slotMembers [] slots = [] := rfl

theorem slotMembers_cons (k : String) (names : List String) (o : Option α)
    (slots : List (Option α)) :
    slotMembers (k :: names) (o :: slots) = (o.map fun v => (k, v)).toList ++ slotMembers names slots := by
  cases o <;> rfl

theorem map_slotMembers (f : α → β) (names : List String) (slots : List (Option α)) :
    (slotMembers names slots).map (fun m => (m.1, f m.2)) =
      slotMembers names (slots.map (Option.map f)) := by
  induction names generalizing slots with
  | nil => rfl
  | cons k names ih =>
    cases slots with
    | nil => rfl
    | cons o slots => cases o <;> simp [slotMembers_cons, ih]

theorem mem_slotMembers {names : List String} {slots : List (Option α)} {m : String × α}
    (h : m ∈ slotMembers names slots) : some m.2 ∈ slots := by
  simp only [slotMembers, List.mem_filterMap, Option.map_eq_some_iff] at h
  obtain ⟨⟨k, o⟩, hmem, v, rfl, rfl⟩ := h
  exact (List.of_mem_zip hmem).2

theorem length_slotMembers_le (names : List String) (slots : List (Option α)) :
    (slotMembers names slots).length ≤ names.length :=
  Nat.le_trans (List.length_filterMap_le _ _) (by rw [List.length_zip]; exact Nat.min_le_left _ _)

end Slots

theorem idxOf?_append_cons {pre suf : List String} {k : String} (hk : k ∉ pre) :
    (pre ++ k :: suf).idxOf? k = some pre.length := by
  induction pre with
  | nil => simp [List.idxOf?_cons]
  | cons a pre ih =>
    have hak : (a == k) = false := by
      simpa using fun h : a = k => hk (h ▸ List.mem_cons_self)
    rw [List.cons_append, List.idxOf?_cons, hak, ih (fun h => hk (List.mem_cons_of_mem a h))]
    rfl

/-- Collecting members under the names after `pre`, written in order from their slots while
those slots are still empty, fills exactly those slots. -/
theorem collect_slotMembers {names : List String} {slots : List (Option Json)}
    (hlen : slots.length = names.length) {pre : List String} {filled : List (Option Json)}
    (hnd : (pre ++ names).Nodup) (hpre : filled.length = pre.length) :
    collect (pre ++ names) ((slotMembers names slots).map fun m => (rawOf m.1, m.2))
        (filled ++ names.map fun _ => none) = some (filled ++ slots) := by
  -- induction on the names still to come; `filled` holds the slots of those already read
  induction names generalizing slots pre filled with
  | nil =>
    rw [List.length_eq_zero_iff.1 hlen]
    simp [collect]
  | cons k names ih =>
    obtain ⟨o, slots, rfl⟩ := List.exists_cons_of_length_eq_add_one hlen
    have hk : k ∉ pre := fun h =>
      (List.nodup_append.1 hnd).2.2 k h k List.mem_cons_self rfl
    have hnd' : ((pre ++ [k]) ++ names).Nodup := by simpa using hnd
    have hnext := @ih slots (by simpa using hlen) (pre ++ [k]) (filled ++ [o]) hnd'
      (by simp [hpre])
    simp only [List.append_assoc, List.singleton_append] at hnext
    cases o with
    | none => simpa [slotMembers_cons] using hnext
    | some v =>
      have hacc : (filled ++ none :: names.map fun _ => none)[pre.length]? = some none := by
        rw [List.getElem?_append_right (by omega), hpre, Nat.sub_self]
        rfl
      have hset : (filled ++ none :: names.map fun _ => none).set pre.length (some v) =
          filled ++ some v :: names.map fun _ => none := by
        rw [List.set_append_right _ _ (by omega), hpre, Nat.sub_self]
        rfl
      simp only [slotMembers_cons, Option.map_some, Option.toList_some, List.singleton_append,
        List.map_cons]
      rw [collect, decodeString?_rawOf]
      simp only [idxOf?_append_cons hk, hacc, hset]
      exact hnext

/-- An object written from slots in the order of distinct names gives those slots back. -/
theorem fields_slotMembers {names : List String} (hnd : names.Nodup) {slots : List (Option Json)}
    (hlen : slots.length = names.length) :
    fields names (.object ((slotMembers names slots).map fun m => (rawOf m.1, m.2))) =
      some slots := by
  rw [fields]
  simpa using @collect_slotMembers names slots hlen [] [] (by simpa using hnd) rfl

end Json

namespace Record

open Json

/-- Every value the record carries reads back from its wire text. -/
def ValuesReadBack (r : Record) : Prop := ∀ x ∈ r.value, x.ReadsBack

/-- The values of a value's record read as `g` of themselves when its gauge reading, if it is
one, does; a counter's record has none. -/
theorem readsAs_toRecordWith {v : Value} {g : Binary64 → Binary64}
    (h : ∀ x, v = .gauge x → x.ReadsAs (g x)) (n hash : String) :
    ∀ y ∈ (v.toRecordWith n hash).value, y.ReadsAs (g y) := by
  intro y hy
  cases v with
  | gauge x => exact Option.some.inj hy ▸ h x rfl
  | counter d => cases hy

/-- A value's record reads back when its gauge reading, if it is one, does. -/
theorem valuesReadBack_toRecordWith {v : Value} (h : ∀ x, v = .gauge x → x.ReadsBack)
    (n hash : String) : (v.toRecordWith n hash).ValuesReadBack :=
  readsAs_toRecordWith (g := fun x => x) h n hash

/-- The slots of the wire text of `r`, in the order of `fieldNames`: each present member's
text, with the document that text reads as. -/
def wireSlots (r : Record) : List (Option (String × Json)) :=
  [some (quote r.id, .string (rawOf r.id)), some (quote r.type, .string (rawOf r.type)),
    r.delta.map fun d => (toString d.toInt, .number (toString d.toInt)),
    r.value.map fun x => (x.jsonText, x.wireDoc),
    if r.hash.isEmpty then none else some (quote r.hash, .string (rawOf r.hash))]

/-- The document the wire text of `r` reads as. -/
def wireJson (r : Record) : Json :=
  .object ((slotMembers fieldNames (r.wireSlots.map (Option.map Prod.snd))).map fun m =>
    (rawOf m.1, m.2))

theorem toJsonText_eq (r : Record) :
    r.toJsonText = objectText ((slotMembers fieldNames r.wireSlots).map fun m => (m.1, m.2.1)) := by
  rcases r with ⟨id, type, _ | d, _ | x, hash⟩ <;> by_cases hh : hash.isEmpty <;>
    simp [toJsonText, wireSlots, fieldNames, slotMembers_cons, hh]

theorem wireSlots_docs (r : Record) :
    r.wireSlots.map (Option.map Prod.snd) =
      [some (.string (rawOf r.id)), some (.string (rawOf r.type)),
        r.delta.map fun d => .number (toString d.toInt), r.value.map Binary64.wireDoc,
        if r.hash.isEmpty then none else some (.string (rawOf r.hash))] := by
  by_cases hh : r.hash.isEmpty <;> simp [wireSlots, Option.map_map, Function.comp_def, hh]

/-- Each present member's text is a written form of its document, when the record's value, if
any, reads as a double. -/
theorem writes_wireSlots {r : Record} {g : Binary64 → Binary64}
    (hr : ∀ x ∈ r.value, x.ReadsAs (g x)) :
    ∀ o ∈ r.wireSlots, ∀ p ∈ o, Writes 1 (Utf8.encode p.1) p.2 := by
  intro o ho p hp
  simp only [wireSlots, List.mem_cons, List.not_mem_nil, or_false] at ho
  rcases ho with rfl | rfl | rfl | rfl | rfl
  · cases Option.mem_def.1 hp
    exact writes_string r.id
  · cases Option.mem_def.1 hp
    exact writes_string r.type
  · obtain ⟨d, -, rfl⟩ := Option.map_eq_some_iff.1 (Option.mem_def.1 hp)
    exact writes_int d.toInt
  · obtain ⟨x, hx, rfl⟩ := Option.map_eq_some_iff.1 (Option.mem_def.1 hp)
    obtain ⟨s, hs, -⟩ := (hr x hx).number
    have hread : read? (Utf8.encode x.jsonText) = some (.number s) := by
      rwa [readText?, Utf8.toUTF8_toList] at hs
    rw [Binary64.wireDoc_eq hs]
    exact writes_of_read? hread
  · by_cases hh : r.hash.isEmpty
    · simp [hh, Option.mem_def] at hp
    · simp only [hh, Bool.false_eq_true, if_false, Option.mem_def, Option.some.injEq] at hp
      subst hp
      exact writes_string r.hash

/-- The wire text of a record is a written form of its document. -/
theorem writes_toJsonText {r : Record} {g : Binary64 → Binary64}
    (hr : ∀ x ∈ r.value, x.ReadsAs (g x)) :
    Writes 7 (Utf8.encode r.toJsonText) r.wireJson := by
  have hw := @writes_object 1 (slotMembers fieldNames r.wireSlots)
    (by simp [fieldNames, wireSlots, slotMembers_cons])
    (fun w hw => writes_wireSlots hr _ (mem_slotMembers hw) w.2 rfl)
  have hdoc : (slotMembers fieldNames r.wireSlots).map (fun w => (rawOf w.1, w.2.2)) =
      (slotMembers fieldNames (r.wireSlots.map (Option.map Prod.snd))).map fun m =>
        (rawOf m.1, m.2) := by
    rw [← map_slotMembers Prod.snd, List.map_map]
    rfl
  have hlen : (slotMembers fieldNames r.wireSlots).length ≤ 5 :=
    length_slotMembers_le fieldNames r.wireSlots
  rw [toJsonText_eq, wireJson, ← hdoc]
  exact hw.mono (by omega)

/-! ## Reading the members back -/

theorem withDefault_delta (d : Option Int64) :
    withDefault none (Json.optional fun j => (asI64? j).map Int64.ofInt)
      (d.map fun d => .number (toString d.toInt)) = some d := by
  cases d with
  | none => rfl
  | some d =>
    have h := asI64?_toInt d
    simp only [withDefault, Json.optional, h, Option.map_some, Int64.ofInt_toInt]

theorem withDefault_value {v : Option Binary64} {g : Binary64 → Binary64}
    (h : ∀ x ∈ v, x.ReadsAs (g x)) :
    withDefault none (Json.optional asF64?) (v.map Binary64.wireDoc) = some (v.map g) := by
  cases v with
  | none => rfl
  | some x =>
    obtain ⟨s, hs, hx⟩ := (h x rfl).number
    simp only [Option.map_some, withDefault, Binary64.wireDoc_eq hs, Json.optional, hx]

theorem withDefault_hash (h : String) :
    withDefault "" asString? (if h.isEmpty then none else some (.string (rawOf h))) = some h := by
  by_cases he : h.isEmpty
  · simp [withDefault, String.isEmpty_iff.1 he]
  · simp [withDefault, he, asString?, decodeString?_rawOf]

/-- The document of a record reads as the record, its value as its wire text reads. -/
theorem ofJson?_wireJson {r : Record} {g : Binary64 → Binary64}
    (hr : ∀ x ∈ r.value, x.ReadsAs (g x)) :
    ofJson? r.wireJson = some { r with value := r.value.map g } := by
  have hnd : fieldNames.Nodup := by decide
  rw [ofJson?, wireJson, fields_slotMembers hnd (by simp [wireSlots, fieldNames]), wireSlots_docs]
  simp only [required, asString?, decodeString?_rawOf, withDefault_delta, withDefault_value hr,
    withDefault_hash, Option.bind_eq_bind, Option.bind_some]
  rfl

/-! ## Lists of records -/

theorem encode_toJsonText_head (r : Record) : ∃ t, Utf8.encode r.toJsonText = 0x7b :: t := by
  rw [toJsonText, objectText, Utf8.encode_append, Utf8.encode_append]
  exact ⟨_, rfl⟩

theorem length_le_length_intercalate {α : Type} (sep : List α) :
    ∀ {L : List (List α)}, (∀ x ∈ L, x ≠ []) → L.length ≤ (sep.intercalate L).length
  | [], _ => by simp
  | [x], h => by
    rw [List.intercalate_singleton]
    exact List.length_pos_iff.2 (h x List.mem_cons_self)
  | x :: y :: L, h => by
    have hrest := @length_le_length_intercalate α sep (y :: L)
      (fun z hz => h z (List.mem_cons_of_mem x hz))
    have hx := List.length_pos_iff.2 (h x List.mem_cons_self)
    rw [List.intercalate_cons_cons]
    simp only [List.length_append, List.length_cons] at hrest ⊢
    omega

theorem length_le_encode_listToJsonText (rs : List Record) :
    rs.length ≤ (Utf8.encode (listToJsonText rs)).length := by
  have hne : ∀ x ∈ rs.map fun r => Utf8.encode r.toJsonText, x ≠ [] := by
    intro x hx
    obtain ⟨r, -, rfl⟩ := List.mem_map.1 hx
    obtain ⟨t, ht⟩ := encode_toJsonText_head r
    simp [ht]
  have hbytes : Utf8.encode (listToJsonText rs) =
      0x5b :: ([0x2c].intercalate (rs.map fun r => Utf8.encode r.toJsonText) ++ [0x5d]) := by
    simp only [listToJsonText, arrayText, Utf8.encode_append, encode_intercalate, List.map_map]
    simp [Function.comp_def, Utf8.encode, Utf8.encodeChar]
  have h := length_le_length_intercalate [0x2c] hne
  rw [hbytes, List.length_cons, List.length_append]
  simp only [List.length_map] at h
  omega

/-- The wire text of a list of records is a written form of the array of their documents. -/
theorem writes_listToJsonText {rs : List Record} {g : Binary64 → Binary64}
    (hrs : ∀ r ∈ rs, ∀ x ∈ r.value, x.ReadsAs (g x)) :
    Writes (rs.length + 8) (Utf8.encode (listToJsonText rs)) (.array (rs.map wireJson)) := by
  have h := @writes_array 7 (by decide) (rs.map fun r => (r.toJsonText, r.wireJson)) (by
    intro w hw
    obtain ⟨r, hr, rfl⟩ := List.mem_map.1 hw
    obtain ⟨t, ht⟩ := encode_toJsonText_head r
    exact ⟨writes_toJsonText (hrs r hr), 0x7b, t, ht, by decide, by decide⟩)
  simpa [listToJsonText, List.map_map, Function.comp_def] using h

/-- **Records read back as their texts read.** A list of records written as JSON reads back
as the same list with each value replaced by the double its wire text reads as. -/
theorem listOfJson?_readText_listToJsonText_as {rs : List Record} {g : Binary64 → Binary64}
    (hrs : ∀ r ∈ rs, ∀ x ∈ r.value, x.ReadsAs (g x)) :
    (Json.readText? (listToJsonText rs)).bind listOfJson? =
      some (rs.map fun r => { r with value := r.value.map g }) := by
  have hread : Json.readText? (listToJsonText rs) = some (.array (rs.map wireJson)) := by
    rw [readText?, Utf8.toUTF8_toList]
    have hlen := length_le_encode_listToJsonText rs
    exact read?_of_writes (writes_listToJsonText hrs) (by omega)
  rw [hread, Option.bind_some, listOfJson?]
  -- each document reads as its record
  clear hread
  induction rs with
  | nil => rfl
  | cons r rs ih =>
    have hr := ofJson?_wireJson (hrs r List.mem_cons_self)
    have hrest := ih (fun r' h => hrs r' (List.mem_cons_of_mem r h))
    simp [List.mapM_cons, hr, hrest]

/-- **Records read back.** A list of records written as JSON reads back as the same list,
whenever the wire text of each value reads back as that value. -/
theorem listOfJson?_readText_listToJsonText {rs : List Record}
    (hrs : ∀ r ∈ rs, r.ValuesReadBack) :
    (Json.readText? (listToJsonText rs)).bind listOfJson? = some rs := by
  rw [listOfJson?_readText_listToJsonText_as (g := fun x => x) hrs]
  simp

end Record

end Telemetry
