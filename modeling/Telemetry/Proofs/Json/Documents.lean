import Telemetry.Json.Writer
import Telemetry.Proofs.Json.Strings
import Telemetry.Proofs.Json.Numbers

/-
  Written JSON reads back.

  `Writes n t j` says that the bytes `t` are a written form of the document `j`: wherever a
  value may stand (`Follows`: before the end of the input, a comma or a closing bracket), the
  reader with at least `n` fuel reads `t` as `j` and stops before what follows. A string
  written by `quote` is one (`writes_string`), the text of an integer is one (`writes_int`),
  and so is any number text that reads on its own as a document (`writes_of_read?`). An
  object or an array written from such parts is one again, with one more unit of fuel for
  each part (`writes_object`, `writes_array`), and a whole document reads back
  (`read?_of_writes`).
-/

namespace Telemetry

namespace Json

/-- What may follow a value inside a document: the end of the input, a comma, or a closing
bracket or brace. -/
def Follows (after : List UInt8) : Prop := ∀ b ∈ after.head?, b = 0x2c ∨ b = 0x5d ∨ b = 0x7d

/-- The bytes `t` are a written form of `j`: with at least `n` fuel and followed by anything
that may follow a value, they read as `j`, and the reader stops before what follows, blanks
aside. -/
def Writes (n : Nat) (t : List UInt8) (j : Json) : Prop :=
  ∀ fuel, n ≤ fuel → ∀ after, Follows after →
    ∃ r, value fuel (t ++ after) = some (j, r) ∧ skipBlank r = after

theorem Writes.mono {n m : Nat} {t : List UInt8} {j : Json} (h : Writes n t j) (hnm : n ≤ m) :
    Writes m t j :=
  fun fuel hf => h fuel (Nat.le_trans hnm hf)

/-- A byte that may start a number and nothing else: no blank, no bracket, quote or the first
letter of a literal. -/
def StartsNumber (b : UInt8) : Prop :=
  isBlankByte b = false ∧ b ≠ 0x7b ∧ b ≠ 0x5b ∧ b ≠ 0x22 ∧ b ≠ 0x74 ∧ b ≠ 0x66 ∧ b ≠ 0x6e

theorem startsNumber_of_isDigitByte {b : UInt8} (h : isDigitByte b = true) : StartsNumber b := by
  simp only [isDigitByte, Bool.and_eq_true, decide_eq_true_eq, UInt8.le_iff_toNat_le,
    UInt8.reduceToNat] at h
  -- a digit is none of the bytes below `0x30` or above `0x39`
  have hne : ∀ c : UInt8, (c.toNat < 0x30 ∨ 0x39 < c.toNat) → b ≠ c := fun c hc he => by
    subst he
    omega
  refine ⟨?_, hne _ (by decide), hne _ (by decide), hne _ (by decide), hne _ (by decide),
    hne _ (by decide), hne _ (by decide)⟩
  simp [isBlankByte, hne 0x20 (by decide), hne 0x09 (by decide), hne 0x0a (by decide),
    hne 0x0d (by decide)]

/-! ## Blanks -/

theorem skipBlank_cons {b : UInt8} (hb : isBlankByte b = false) (rest : List UInt8) :
    skipBlank (b :: rest) = b :: rest := by
  simp [skipBlank, hb]

theorem skipBlank_append {t t' : List UInt8} {b : UInt8} (ht : skipBlank t = b :: t')
    (x : List UInt8) : skipBlank (t ++ x) = b :: (t' ++ x) := by
  unfold skipBlank at *
  rw [List.dropWhile_append, if_neg (by simp [ht]), ht, List.cons_append]

theorem skipBlank_append_of_nil {r : List UInt8} (hr : skipBlank r = []) (x : List UInt8) :
    skipBlank (r ++ x) = skipBlank x := by
  unfold skipBlank at *
  rw [List.dropWhile_append, if_pos (by simp [hr])]

theorem Follows.skipBlank {after : List UInt8} (h : Follows after) : skipBlank after = after := by
  cases after with
  | nil => rfl
  | cons b rest =>
    apply skipBlank_cons
    rcases h b rfl with rfl | rfl | rfl <;> rfl

theorem Follows.endsToken {after : List UInt8} (h : Follows after) : EndsToken after := by
  intro b hb
  rcases h b hb with rfl | rfl | rfl <;> exact ⟨rfl, by decide, by decide, by decide⟩

/-! ## One value -/

theorem value_string {fuel : Nat} {bs rest : List UInt8} (h : skipBlank bs = 0x22 :: rest) :
    value (fuel + 1) bs = (stringBody rest []).map fun (s, r) => (.string s, r) := by
  rw [value.eq_2, h]
  rfl

theorem value_number {fuel : Nat} {bs rest : List UInt8} {b : UInt8}
    (h : skipBlank bs = b :: rest) (hb : StartsNumber b) :
    value (fuel + 1) bs = (numberToken (b :: rest)).map fun (t, r) => (.number t, r) := by
  obtain ⟨-, h₁, h₂, h₃, h₄, h₅, h₆⟩ := hb
  rw [value.eq_2, h]
  simp only [beq_iff_eq, h₁, h₂, h₃, h₄, h₅, h₆, if_false]

/-- Members read as an object, whatever else happens. -/
theorem members_object {fuel : Nat} {bs : List UInt8} {acc : List (List UInt8 × Json)}
    {j : Json} {r : List UInt8} (h : members fuel bs acc = some (j, r)) : ∃ ms, j = .object ms := by
  induction fuel generalizing bs acc with
  | zero => simp [members] at h
  | succ fuel ih =>
    rw [members.eq_def] at h
    simp only at h
    repeat' split at h
    all_goals first
      | (cases h; exact ⟨_, rfl⟩)
      | exact ih h
      | cases h

/-- Items read as an array, whatever else happens. -/
theorem items_array {fuel : Nat} {bs : List UInt8} {acc : List Json} {j : Json}
    {r : List UInt8} (h : items fuel bs acc = some (j, r)) : ∃ js, j = .array js := by
  induction fuel generalizing bs acc with
  | zero => simp [items] at h
  | succ fuel ih =>
    rw [items.eq_def] at h
    simp only at h
    repeat' split at h
    all_goals first
      | (cases h; exact ⟨_, rfl⟩)
      | exact ih h
      | cases h

/-- A number token with only blanks after it is a written number. -/
theorem writes_of_numberToken {t t' r₀ : List UInt8} {b : UInt8} {s : String}
    (ht : skipBlank t = b :: t') (hb : StartsNumber b) (h : numberToken (b :: t') = some (s, r₀))
    (hr : skipBlank r₀ = []) : Writes 1 t (.number s) := by
  intro fuel hf after hafter
  obtain ⟨fuel, rfl⟩ : ∃ f, fuel = f + 1 := ⟨fuel - 1, by omega⟩
  refine ⟨r₀ ++ after, ?_, ?_⟩
  · rw [value_number (skipBlank_append ht after) hb, ← List.cons_append,
      numberToken_append h fun _ => hafter.endsToken]
    rfl
  · rw [skipBlank_append_of_nil hr, hafter.skipBlank]

/-- **A number text that reads as a document is a written number** wherever it stands. -/
theorem writes_of_read? {t : List UInt8} {s : String} (h : read? t = some (.number s)) :
    Writes 1 t (.number s) := by
  unfold read? at h
  split at h
  · rename_i v r₀ hv
    split at h
    · rename_i hr
      cases h
      obtain ⟨f, hf⟩ : ∃ f, 4 * t.length + 8 = f + 1 := ⟨4 * t.length + 7, rfl⟩
      rw [hf, value.eq_2] at hv
      split at hv
      · cases hv
      · rename_i b t' ht
        -- the other branches give objects, arrays, strings and literals, never a number
        by_cases h₁ : b = 0x7b
        · simp only [h₁, beq_self_eq_true, if_true] at hv
          obtain ⟨ms, hms⟩ := members_object hv
          cases hms
        by_cases h₂ : b = 0x5b
        · simp only [h₂, beq_iff_eq, if_true] at hv
          obtain ⟨js, hjs⟩ := items_array hv
          cases hjs
        by_cases h₃ : b = 0x22
        · subst h₃; simp at hv
        by_cases h₄ : b = 0x74
        · subst h₄; simp at hv
        by_cases h₅ : b = 0x66
        · subst h₅; simp at hv
        by_cases h₆ : b = 0x6e
        · subst h₆; simp at hv
        have hblank : isBlankByte b = false := by
          have := congrArg List.head? ht
          unfold skipBlank at this
          cases hd : isBlankByte b
          · rfl
          · exact absurd (List.head?_dropWhile_not isBlankByte t) (by simp_all)
        simp only [beq_iff_eq, h₁, h₂, h₃, h₄, h₅, h₆, if_false] at hv
        obtain ⟨⟨s', r'⟩, htok, hsr⟩ := Option.map_eq_some_iff.1 hv
        simp only [Prod.mk.injEq, number.injEq] at hsr
        obtain ⟨rfl, rfl⟩ := hsr
        exact writes_of_numberToken ht ⟨hblank, h₁, h₂, h₃, h₄, h₅, h₆⟩ htok
          (by simpa using hr)
    · cases h
  · cases h

theorem writes_int (i : Int) : Writes 1 (Utf8.encode (toString i)) (.number (toString i)) := by
  -- the text starts with a minus sign or a digit
  obtain ⟨b, t', ht, hb⟩ : ∃ b t', Utf8.encode (toString i) = b :: t' ∧ StartsNumber b := by
    rw [encode_toString_int]
    split
    · exact ⟨_, _, rfl, by decide, by decide, by decide, by decide, by decide, by decide,
        by decide⟩
    · obtain ⟨c, cs, hc⟩ : ∃ c cs, Nat.toDigits 10 i.natAbs = c :: cs := by
        cases h : Nat.toDigits 10 i.natAbs with
        | nil => exact absurd h Nat.toDigits_ne_nil
        | cons c cs => exact ⟨c, cs, rfl⟩
      have hdig := Nat.isDigit_of_mem_toDigits (by omega) (by omega) (hc ▸ List.mem_cons_self)
      have hascii : c.toNat < 0x80 := by
        have := Char.isDigit_iff_toNat.1 hdig
        simp at this
        omega
      rw [hc, List.flatMap_cons, Utf8.encodeChar_of_lt hascii]
      exact ⟨_, _, rfl, startsNumber_of_isDigitByte (isDigitByte_of_isDigit hdig)⟩
  have hskip : skipBlank (Utf8.encode (toString i)) = b :: t' := by
    rw [ht]
    exact skipBlank_cons hb.1 t'
  exact writes_of_numberToken hskip hb (ht ▸ numberToken_int i) rfl

theorem writes_string (s : String) : Writes 1 (Utf8.encode (quote s)) (.string (rawOf s)) := by
  intro fuel hf after hafter
  obtain ⟨fuel, rfl⟩ : ∃ f, fuel = f + 1 := ⟨fuel - 1, by omega⟩
  have hbytes : Utf8.encode (quote s) ++ after = 0x22 :: (rawOf s ++ 0x22 :: after) := by
    rw [encode_quote]
    simp
  refine ⟨after, ?_, hafter.skipBlank⟩
  rw [hbytes, value_string (skipBlank_cons rfl _), stringBody_rawOf]
  rfl

/-! ## Objects and arrays -/

theorem flatMap_intercalate {α β : Type} (f : α → List β) (sep : List α) :
    ∀ ls : List (List α),
      (sep.intercalate ls).flatMap f = (sep.flatMap f).intercalate (ls.map (·.flatMap f))
  | [] => rfl
  | [_] => by simp
  | l :: l' :: ls => by
    rw [List.intercalate_cons_cons, List.flatMap_append, List.flatMap_append,
      flatMap_intercalate f sep (l' :: ls)]
    simp

theorem encode_intercalate (sep : String) (xs : List String) :
    Utf8.encode (sep.intercalate xs) = (Utf8.encode sep).intercalate (xs.map Utf8.encode) := by
  rw [Utf8.encode, String.toList_intercalate, flatMap_intercalate, List.map_map]
  rfl

/-- Reading one member up to the comma after it. -/
theorem members_next {n fuel : Nat} {k : String} {v more : List UInt8} {j : Json}
    (hv : Writes n v j) (hf : n ≤ fuel) (hmore : skipBlank more = more)
    (acc : List (List UInt8 × Json)) :
    members (fuel + 1) (Utf8.encode (quote k) ++ 0x3a :: (v ++ 0x2c :: more)) acc =
      members fuel more ((rawOf k, j) :: acc) := by
  obtain ⟨r, hr, hskip⟩ := hv fuel hf (0x2c :: more) (by simp [Follows])
  rw [encode_quote, members.eq_def]
  simp only [List.cons_append, List.append_assoc]
  rw [stringBody_rawOf]
  simp only [List.nil_append, @skipBlank_cons 0x3a rfl, hr, hskip, hmore]

/-- Reading the last member up to the closing brace. -/
theorem members_last {n fuel : Nat} {k : String} {v after : List UInt8} {j : Json}
    (hv : Writes n v j) (hf : n ≤ fuel) (acc : List (List UInt8 × Json)) :
    members (fuel + 1) (Utf8.encode (quote k) ++ 0x3a :: (v ++ 0x7d :: after)) acc =
      some (.object ((rawOf k, j) :: acc).reverse, after) := by
  obtain ⟨r, hr, hskip⟩ := hv fuel hf (0x7d :: after) (by simp [Follows])
  rw [encode_quote, members.eq_def]
  simp only [List.cons_append, List.append_assoc]
  rw [stringBody_rawOf]
  simp only [List.nil_append, @skipBlank_cons 0x3a rfl, hr, hskip]

/-- The members of a written object, each a written value, read in order. -/
theorem members_written {n : Nat} :
    ∀ {ws : List (String × List UInt8 × Json)}, ws ≠ [] → (∀ w ∈ ws, Writes n w.2.1 w.2.2) →
      ∀ {fuel : Nat}, ws.length + n ≤ fuel → ∀ (acc : List (List UInt8 × Json)) (after : List UInt8),
      members fuel ([0x2c].intercalate (ws.map fun w => Utf8.encode (quote w.1) ++ 0x3a :: w.2.1) ++
          0x7d :: after) acc =
        some (.object (acc.reverse ++ ws.map fun w => (rawOf w.1, w.2.2)), after)
  | [], hne, _, _, _, _, _ => absurd rfl hne
  | [(k, v, j)], _, hw, fuel, hf, acc, after => by
    obtain ⟨fuel, rfl⟩ : ∃ f, fuel = f + 1 := ⟨fuel - 1, by simp at hf; omega⟩
    have hv : Writes n v j := hw (k, v, j) (by simp)
    simp only [List.map_cons, List.map_nil, List.intercalate_singleton, List.append_assoc,
      List.cons_append]
    rw [members_last hv (by simp at hf; omega)]
    simp
  | (k, v, j) :: w' :: ws, _, hw, fuel, hf, acc, after => by
    obtain ⟨fuel, rfl⟩ : ∃ f, fuel = f + 1 := ⟨fuel - 1, by simp at hf; omega⟩
    have hv : Writes n v j := hw (k, v, j) (by simp)
    have hrest := @members_written n (w' :: ws) (by simp)
      (fun w hw' => hw w (List.mem_cons_of_mem _ hw')) fuel (by simp at hf ⊢; omega)
      ((rawOf k, j) :: acc) after
    -- the next member starts with the quote of its name, which is no blank
    have hmore : ∀ x, skipBlank ([0x2c].intercalate ((w' :: ws).map fun w =>
        Utf8.encode (quote w.1) ++ 0x3a :: w.2.1) ++ x) =
        [0x2c].intercalate ((w' :: ws).map fun w => Utf8.encode (quote w.1) ++ 0x3a :: w.2.1) ++
          x := fun x => by
      rw [List.map_cons, encode_quote]
      simp only [List.cons_append, List.intercalate_cons_cons_left]
      exact skipBlank_cons rfl _
    have hsplit : [0x2c].intercalate (((k, v, j) :: w' :: ws).map fun w =>
        Utf8.encode (quote w.1) ++ 0x3a :: w.2.1) ++ 0x7d :: after =
        Utf8.encode (quote k) ++ 0x3a :: (v ++ 0x2c :: ([0x2c].intercalate ((w' :: ws).map
          fun w => Utf8.encode (quote w.1) ++ 0x3a :: w.2.1) ++ 0x7d :: after)) := by
      rw [List.map_cons, List.intercalate_cons_of_ne_nil (by simp)]
      simp only [List.append_assoc, List.cons_append, List.nil_append]
    rw [hsplit, members_next hv (by simp at hf; omega) (hmore _) acc, hrest]
    simp

theorem value_nil (fuel : Nat) : value fuel [] = none := by
  cases fuel <;> rfl

/-- Reading one array item up to the comma after it. -/
theorem items_next {n fuel : Nat} {v more : List UInt8} {j : Json} (hv : Writes n v j)
    (hf : n ≤ fuel) (hstart : ∀ b ∈ v.head?, b ≠ 0x5d) (hmore : skipBlank more = more)
    (acc : List Json) :
    items (fuel + 1) (v ++ 0x2c :: more) acc = items fuel more (j :: acc) := by
  obtain ⟨r, hr, hskip⟩ := hv fuel hf (0x2c :: more) (by simp [Follows])
  rw [items.eq_def]
  simp only
  split
  · rename_i rest heq
    cases v with
    | nil => simp at heq
    | cons b v =>
      simp only [List.cons_append, List.cons.injEq] at heq
      exact absurd heq.1 (hstart b rfl)
  · rw [hr]
    simp only [hskip, hmore]

/-- Reading the last array item up to the closing bracket. -/
theorem items_last {n fuel : Nat} {v after : List UInt8} {j : Json} (hv : Writes n v j)
    (hf : n ≤ fuel) (hstart : ∀ b ∈ v.head?, b ≠ 0x5d) (acc : List Json) :
    items (fuel + 1) (v ++ 0x5d :: after) acc = some (.array (j :: acc).reverse, after) := by
  obtain ⟨r, hr, hskip⟩ := hv fuel hf (0x5d :: after) (by simp [Follows])
  rw [items.eq_def]
  simp only
  split
  · rename_i rest heq
    cases v with
    | nil =>
      -- an empty text is no written value
      obtain ⟨r', hr'⟩ := hv fuel hf [] (by simp [Follows])
      rw [List.nil_append, value_nil] at hr'
      cases hr'.1
    | cons b v =>
      simp only [List.cons_append, List.cons.injEq] at heq
      exact absurd heq.1 (hstart b rfl)
  · rw [hr]
    simp only [hskip]

/-- The items of a written array, each a written value starting with no blank or closing
bracket, read in order. -/
theorem items_written {n : Nat} :
    ∀ {ws : List (List UInt8 × Json)}, ws ≠ [] →
      (∀ w ∈ ws, Writes n w.1 w.2 ∧ ∃ b t, w.1 = b :: t ∧ isBlankByte b = false ∧ b ≠ 0x5d) →
      ∀ {fuel : Nat}, ws.length + n ≤ fuel → ∀ (acc : List Json) (after : List UInt8),
      items fuel ([0x2c].intercalate (ws.map Prod.fst) ++ 0x5d :: after) acc =
        some (.array (acc.reverse ++ ws.map Prod.snd), after)
  | [], hne, _, _, _, _, _ => absurd rfl hne
  | [(v, j)], _, hw, fuel, hf, acc, after => by
    obtain ⟨fuel, rfl⟩ : ∃ f, fuel = f + 1 := ⟨fuel - 1, by simp at hf; omega⟩
    obtain ⟨hv, b, t, rfl, -, hb⟩ := hw (v, j) (by simp)
    simp only [List.map_cons, List.map_nil, List.intercalate_singleton]
    rw [items_last hv (by simp at hf; omega) (by simpa using hb)]
    simp
  | (v, j) :: w' :: ws, _, hw, fuel, hf, acc, after => by
    obtain ⟨fuel, rfl⟩ : ∃ f, fuel = f + 1 := ⟨fuel - 1, by simp at hf; omega⟩
    obtain ⟨hv, b, t, rfl, -, hb⟩ := hw (v, j) (by simp)
    have hrest := @items_written n (w' :: ws) (by simp)
      (fun w hw' => hw w (List.mem_cons_of_mem _ hw')) fuel (by simp at hf ⊢; omega)
      (j :: acc) after
    -- the next item starts with no blank
    have hmore : skipBlank ([0x2c].intercalate ((w' :: ws).map Prod.fst) ++ 0x5d :: after) =
        [0x2c].intercalate ((w' :: ws).map Prod.fst) ++ 0x5d :: after := by
      obtain ⟨-, b', t', hw'', hb', -⟩ := hw w' (by simp)
      rw [List.map_cons, hw'']
      simp only [List.cons_append, List.intercalate_cons_cons_left]
      exact skipBlank_cons hb' _
    have hsplit : [0x2c].intercalate (((b :: t, j) :: w' :: ws).map Prod.fst) ++ 0x5d :: after =
        b :: t ++ 0x2c :: ([0x2c].intercalate ((w' :: ws).map Prod.fst) ++ 0x5d :: after) := by
      rw [List.map_cons, List.intercalate_cons_of_ne_nil (by simp)]
      simp only [List.append_assoc, List.cons_append, List.nil_append]
    rw [hsplit, items_next hv (by simp at hf; omega) (by simpa using hb) hmore acc, hrest]
    simp

/-- **Written objects read back**, one more unit of fuel for each member. -/
theorem writes_object {n : Nat} {ws : List (String × String × Json)} (hne : ws ≠ [])
    (hw : ∀ w ∈ ws, Writes n (Utf8.encode w.2.1) w.2.2) :
    Writes (ws.length + n + 1) (Utf8.encode (objectText (ws.map fun w => (w.1, w.2.1))))
      (.object (ws.map fun w => (rawOf w.1, w.2.2))) := by
  intro fuel hf after hafter
  obtain ⟨fuel, rfl⟩ : ∃ f, fuel = f + 1 := ⟨fuel - 1, by omega⟩
  let bw : List (String × List UInt8 × Json) := ws.map fun w => (w.1, Utf8.encode w.2.1, w.2.2)
  have hbytes : Utf8.encode (objectText (ws.map fun w => (w.1, w.2.1))) ++ after =
      0x7b :: ([0x2c].intercalate (bw.map fun w => Utf8.encode (quote w.1) ++ 0x3a :: w.2.1) ++
        0x7d :: after) := by
    simp only [objectText, Utf8.encode_append, encode_intercalate, List.map_map]
    simp [bw, Function.comp_def, Utf8.encode, Utf8.encodeChar]
  have hfirst : ∀ x, skipBlank ([0x2c].intercalate (bw.map fun w =>
      Utf8.encode (quote w.1) ++ 0x3a :: w.2.1) ++ x) =
      [0x2c].intercalate (bw.map fun w => Utf8.encode (quote w.1) ++ 0x3a :: w.2.1) ++ x := by
    intro x
    obtain ⟨w, ws', rfl⟩ : ∃ w ws', ws = w :: ws' := by
      cases ws with
      | nil => exact absurd rfl hne
      | cons w ws' => exact ⟨w, ws', rfl⟩
    simp only [bw, List.map_cons, encode_quote, List.cons_append, List.intercalate_cons_cons_left]
    exact skipBlank_cons rfl _
  have hread := @members_written n bw (by simpa [bw] using hne)
    (fun w hw' => by
      simp only [bw, List.mem_map] at hw'
      obtain ⟨w₀, h₀, rfl⟩ := hw'
      exact hw w₀ h₀) fuel (by simp [bw]; omega) [] after
  refine ⟨after, ?_, hafter.skipBlank⟩
  rw [hbytes, value.eq_2, skipBlank_cons rfl]
  simp only [beq_self_eq_true, if_true]
  rw [hfirst, hread]
  simp [bw]

/-- **Written arrays read back**, one more unit of fuel for each item. -/
theorem writes_array {n : Nat} (hn : 0 < n) {ws : List (String × Json)}
    (hw : ∀ w ∈ ws, Writes n (Utf8.encode w.1) w.2 ∧
      ∃ b t, Utf8.encode w.1 = b :: t ∧ isBlankByte b = false ∧ b ≠ 0x5d) :
    Writes (ws.length + n + 1) (Utf8.encode (arrayText (ws.map Prod.fst)))
      (.array (ws.map Prod.snd)) := by
  intro fuel hf after hafter
  obtain ⟨fuel, rfl⟩ : ∃ f, fuel = f + 1 := ⟨fuel - 1, by omega⟩
  refine ⟨after, ?_, hafter.skipBlank⟩
  let bw : List (List UInt8 × Json) := ws.map fun w => (Utf8.encode w.1, w.2)
  have hbytes : Utf8.encode (arrayText (ws.map Prod.fst)) ++ after =
      0x5b :: ([0x2c].intercalate (bw.map Prod.fst) ++ 0x5d :: after) := by
    simp only [arrayText, Utf8.encode_append, encode_intercalate, List.map_map]
    simp [bw, Function.comp_def, Utf8.encode, Utf8.encodeChar]
  rw [hbytes, value.eq_2, skipBlank_cons rfl]
  simp only [beq_iff_eq, show (0x5b : UInt8) ≠ 0x7b by decide, if_false, if_true]
  cases ws with
  | nil =>
    obtain ⟨fuel, rfl⟩ : ∃ f, fuel = f + 1 := ⟨fuel - 1, by simp at hf; omega⟩
    rfl
  | cons w ws' =>
    obtain ⟨-, b, t, hbt, hb, -⟩ := hw w (by simp)
    have hread := @items_written n bw (by simp [bw])
      (fun x hx => by
        simp only [bw, List.mem_map] at hx
        obtain ⟨w₀, h₀, rfl⟩ := hx
        exact hw w₀ h₀) fuel (by simp [bw] at hf ⊢; omega) [] after
    have hfirst : skipBlank ([0x2c].intercalate (bw.map Prod.fst) ++ 0x5d :: after) =
        [0x2c].intercalate (bw.map Prod.fst) ++ 0x5d :: after := by
      simp only [bw, List.map_cons, hbt, List.cons_append, List.intercalate_cons_cons_left]
      exact skipBlank_cons hb _
    rw [hfirst, hread]
    simp [bw]

/-- **A written document reads back**, given the fuel the reader allows for its length. -/
theorem read?_of_writes {n : Nat} {t : List UInt8} {j : Json} (h : Writes n t j)
    (hn : n ≤ 4 * t.length + 8) : read? t = some j := by
  obtain ⟨r, hr, hskip⟩ := h _ hn [] (by simp [Follows])
  rw [List.append_nil] at hr
  rw [read?, hr]
  simp [hskip]

end Json

end Telemetry
