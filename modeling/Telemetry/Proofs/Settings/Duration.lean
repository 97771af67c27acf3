import Mathlib
import Telemetry.Settings.Duration
import Telemetry.Proofs.Number.Exact
import Telemetry.Proofs.Json.Numbers

/-
  How a duration text reads. After trimming, a bare run of digits below `2^64` is that many
  seconds. Anything else is split into parts, each a maximal run of number characters and then
  a maximal run of other characters (`Part.Split`); a text splits one way only
  (`flatMap_text_inj`). Each part's number is read as a double and scaled by its unit as a
  double, and `total?` adds them in order; `parse_parts` says the reader answers the nearest
  duration to that double sum. Whole numbers in `s`, `m` and `h` add exactly below `2^53`
  (`parse_wholeSeconds`), but above it the unit path rounds where the bare path does not
  (`parse_seconds_rounds_to_double`). `parts_of_parse` is the converse, and from it the
  malformed texts fail (`parse_fails`).
-/

namespace Telemetry

namespace Text

/-- Trimming removes blanks around a text that neither starts nor ends with one. -/
theorem trim_ofList_pad {ws x ws' : List Char} (hws : ∀ c ∈ ws, isBlank c = true)
    (hws' : ∀ c ∈ ws', isBlank c = true) (hx : x ≠ [])
    (hhead : ∀ c ∈ x.head?, isBlank c = false) (hlast : ∀ c ∈ x.getLast?, isBlank c = false) :
    trim (String.ofList (ws ++ x ++ ws')) = String.ofList x := by
  obtain ⟨c, cs, rfl⟩ := List.exists_cons_of_ne_nil hx
  obtain ⟨d, ds, hd⟩ := List.exists_cons_of_ne_nil (List.reverse_ne_nil_iff.2 hx)
  have hc : isBlank c = false := hhead c rfl
  have hdb : isBlank d = false :=
    hlast d (by rw [List.getLast?_eq_head?_reverse, hd]; rfl)
  unfold trim
  rw [String.toList_ofList, List.append_assoc, List.dropWhile_append_of_pos hws,
    List.cons_append, List.dropWhile_cons_of_neg (by simp [hc]), ← List.cons_append,
    List.reverse_append,
    List.dropWhile_append_of_pos (by simpa using hws'), hd,
    List.dropWhile_cons_of_neg (by simp [hdb]), ← hd, List.reverse_reverse]

end Text

namespace Decimal

theorem digitsValue_append_digit (ds : List Char) (c : Char) :
    digitsValue (ds ++ [c]) = digitsValue ds * 10 + (c.toNat - '0'.toNat) := by
  simp [digitsValue, List.foldl_append]

/-- The digits of a number read back to it. -/
theorem digitsValue_toDigits (n : Nat) : digitsValue (Nat.toDigits 10 n) = n := by
  induction n using Nat.strongRecOn with
  | ind n ih =>
    by_cases h : n < 10
    · rw [Nat.toDigits_of_lt_base h]
      interval_cases n <;> rfl
    · have hd : (n % 10).digitChar.toNat - '0'.toNat = n % 10 := by
        have : n % 10 < 10 := Nat.mod_lt _ (by omega)
        interval_cases n % 10 <;> rfl
      rw [Nat.toDigits_of_base_le (by omega) (by omega), digitsValue_append_digit, hd,
        ih (n / 10) (by omega)]
      omega

/-- A text of digits reads as its value when that is below the bound, and not at all
otherwise. -/
theorem readNat?_digits {ds : List Char} (hne : ds ≠ []) (hd : ∀ c ∈ ds, c.isDigit = true)
    (bound : Nat) :
    readNat? (String.ofList ds) bound =
      if digitsValue ds < bound then some (digitsValue ds) else none := by
  obtain ⟨c, cs, rfl⟩ := List.exists_cons_of_ne_nil hne
  have hc : c.isDigit = true := hd c List.mem_cons_self
  have hminus : c ≠ '-' := by rintro rfl; exact absurd hc (by decide)
  unfold readNat?
  rw [String.toList_ofList]
  split
  · rename_i h; cases h; exact absurd rfl hminus
  · simp only [splitSign_of_isDigit hc, List.isEmpty_cons, Bool.false_or,
      List.all_eq_true.2 hd, Bool.not_true, Bool.false_eq_true, if_false]

/-- Dropping a sign keeps the last character, unless nothing follows the sign. -/
theorem getLast?_splitSign {cs : List Char} (h : (splitSign cs).2 ≠ []) :
    cs.getLast? = (splitSign cs).2.getLast? := by
  unfold splitSign at h ⊢
  split
  all_goals
    simp only at h ⊢
    try (obtain ⟨r, rs, rfl⟩ := List.exists_cons_of_ne_nil h; simp)

/-- A text `readNat?` accepts ends with a digit. -/
theorem readNat?_getLast {s : String} {bound v : Nat} (h : readNat? s bound = some v) :
    ∀ c ∈ s.toList.getLast?, c.isDigit = true := by
  unfold readNat? at h
  split at h
  · cases h
  · rename_i cs _
    simp only [Bool.or_eq_true, Bool.not_eq_true'] at h
    split at h
    · cases h
    · rename_i hds
      simp only [List.isEmpty_iff, not_or, Bool.not_eq_false, List.all_eq_true] at hds
      obtain ⟨hne, hall⟩ := hds
      intro c hc
      rw [getLast?_splitSign hne] at hc
      exact hall c (List.mem_of_getLast? hc)

end Decimal

namespace Duration

/-! ## Splitting a text into parts -/

/-- A part of a duration text as the reader splits it: a number, then a unit. -/
structure Part where
  number : List Char
  unit : List Char

namespace Part

/-- The characters of a part. -/
def text (p : Part) : List Char := p.number ++ p.unit

/-- The reader splits here: a nonempty run of number characters, then a nonempty run of
other characters. -/
def Split (p : Part) : Prop :=
  p.number ≠ [] ∧ (∀ c ∈ p.number, isNumberChar c = true) ∧ p.unit ≠ [] ∧
    ∀ c ∈ p.unit, isNumberChar c = false

/-- The seconds a part stands for, as the reader computes them: the double its number reads
as, times the factor of its unit; `none` when the number does not read or the unit is not
known. -/
def seconds? (p : Part) : Option Binary64 :=
  (Binary64.read? (String.ofList p.number)).bind fun n =>
    (unitScale? (String.ofList p.unit)).map fun s => n * s

end Part

/-- The double total of parts, each part's seconds added in turn onto `total`. -/
def total? (total : Binary64) : List Part → Option Binary64
  | [] => some total
  | p :: ps => p.seconds?.bind fun x => total? (total + x) ps

theorem text_ne_nil {p : Part} (hp : p.Split) : p.text ≠ [] := by
  simp [Part.text, hp.1]

theorem split_append {p : Part} (hp : p.Split) {more : List Char}
    (hmore : ∀ c ∈ more.head?, isNumberChar c = true) :
    (p.text ++ more).takeWhile isNumberChar = p.number ∧
      (p.text ++ more).dropWhile isNumberChar = p.unit ++ more ∧
      (p.unit ++ more).takeWhile (!isNumberChar ·) = p.unit ∧
      (p.unit ++ more).dropWhile (!isNumberChar ·) = more := by
  obtain ⟨-, hnum, hne, hunit⟩ := hp
  have h1 := @Json.run_append Char isNumberChar p.number (p.unit ++ more) (by
    intro _ x hx
    obtain ⟨u, us, hu⟩ := List.exists_cons_of_ne_nil hne
    simp only [hu, List.cons_append, List.head?_cons, Option.mem_def, Option.some.injEq] at hx
    subst hx
    exact hunit _ (by simp [hu]))
  have h2 := @Json.run_append Char (!isNumberChar ·) p.unit more (by
    intro _ x hx
    simpa using hmore x hx)
  have ht1 : p.number.takeWhile isNumberChar = p.number := List.takeWhile_eq_self_iff.2 hnum
  have hd1 : p.number.dropWhile isNumberChar = [] := List.dropWhile_eq_nil_iff.2 hnum
  have ht2 : p.unit.takeWhile (!isNumberChar ·) = p.unit :=
    List.takeWhile_eq_self_iff.2 (by simpa using hunit)
  have hd2 : p.unit.dropWhile (!isNumberChar ·) = [] :=
    List.dropWhile_eq_nil_iff.2 (by simpa using hunit)
  refine ⟨?_, ?_, ?_, ?_⟩
  · rw [Part.text, List.append_assoc, h1.1, ht1]
  · rw [Part.text, List.append_assoc, h1.2, hd1, List.nil_append]
  · rw [h2.1, ht2]
  · rw [h2.2, hd2, List.nil_append]

theorem head_flatMap_text {ps : List Part} (hps : ∀ p ∈ ps, p.Split) :
    ∀ c ∈ (ps.flatMap Part.text).head?, isNumberChar c = true := by
  cases ps with
  | nil => simp
  | cons p ps =>
    obtain ⟨hne, hnum, -⟩ := hps p List.mem_cons_self
    obtain ⟨d, ds, hd⟩ := List.exists_cons_of_ne_nil hne
    intro c hc
    simp only [List.flatMap_cons, Part.text, hd, List.cons_append, List.head?_cons,
      Option.mem_def, Option.some.injEq] at hc
    subst hc
    exact hnum _ (by simp [hd])

/-- The last character of a text of parts is a character of some part's unit. -/
theorem mem_unit_of_getLast? {ps : List Part} (hps : ∀ p ∈ ps, p.Split) :
    ∀ c ∈ (ps.flatMap Part.text).getLast?, ∃ p ∈ ps, c ∈ p.unit := by
  rcases List.eq_nil_or_concat ps with rfl | ⟨init, p, rfl⟩
  · simp
  · have hp := hps p (by simp)
    obtain ⟨u, us, hu⟩ := List.exists_cons_of_ne_nil (List.reverse_ne_nil_iff.2 hp.2.2.1)
    intro c hc
    have hlast : p.unit.getLast? = some u := by
      rw [List.getLast?_eq_head?_reverse, hu, List.head?_cons]
    simp only [List.concat_eq_append, List.flatMap_append, List.flatMap_cons, List.flatMap_nil,
      List.append_nil, Part.text, List.getLast?_append, hlast, Option.some_or,
      Option.mem_def, Option.some.injEq] at hc
    subst hc
    exact ⟨p, by simp, List.mem_of_getLast? hlast⟩

/-- A text of parts ends in a unit. -/
theorem getLast?_flatMap_text {ps : List Part} (hps : ∀ p ∈ ps, p.Split) :
    ∀ c ∈ (ps.flatMap Part.text).getLast?, isNumberChar c = false := by
  intro c hc
  obtain ⟨p, hp, hcp⟩ := mem_unit_of_getLast? hps c hc
  exact (hps p hp).2.2.2 c hcp

/-- A text splits into parts in one way only: each number and each unit is a maximal run. -/
theorem flatMap_text_inj :
    ∀ {ps qs : List Part}, (∀ p ∈ ps, p.Split) → (∀ q ∈ qs, q.Split) →
      ps.flatMap Part.text = qs.flatMap Part.text → ps = qs
  | [], [], _, _, _ => rfl
  | [], q :: _, _, hqs, h => by
    simp only [List.flatMap_nil, List.flatMap_cons, List.nil_eq, List.append_eq_nil_iff] at h
    exact absurd h.1 (text_ne_nil (hqs q List.mem_cons_self))
  | p :: _, [], hps, _, h => by
    simp only [List.flatMap_nil, List.flatMap_cons, List.append_eq_nil_iff] at h
    exact absurd h.1 (text_ne_nil (hps p List.mem_cons_self))
  | p :: ps, q :: qs, hps, hqs, h => by
    have hp := hps p List.mem_cons_self
    have hq := hqs q List.mem_cons_self
    have htp : ∀ r ∈ ps, r.Split := fun r hr => hps r (List.mem_cons_of_mem _ hr)
    have htq : ∀ r ∈ qs, r.Split := fun r hr => hqs r (List.mem_cons_of_mem _ hr)
    obtain ⟨p1, p2, p3, p4⟩ := split_append hp (head_flatMap_text htp)
    obtain ⟨q1, q2, q3, q4⟩ := split_append hq (head_flatMap_text htq)
    rw [List.flatMap_cons, List.flatMap_cons] at h
    -- the number runs agree, then the unit runs, then what follows them
    have hnum : p.number = q.number := by rw [← p1, ← q1, h]
    have hrest : p.unit ++ ps.flatMap Part.text = q.unit ++ qs.flatMap Part.text := by
      rw [← p2, ← q2, h]
    have hunit : p.unit = q.unit := by rw [← p3, ← q3, hrest]
    have hmore : ps.flatMap Part.text = qs.flatMap Part.text := by rw [← p4, ← q4, hrest]
    obtain ⟨pn, pu⟩ := p
    obtain ⟨qn, qu⟩ := q
    simp only at hnum hunit
    rw [hnum, hunit, flatMap_text_inj htp htq hmore]

theorem length_le_flatMap_text {ps : List Part} (hps : ∀ p ∈ ps, p.Split) :
    ps.length ≤ (ps.flatMap Part.text).length := by
  induction ps with
  | nil => simp
  | cons p ps ih =>
    have hp : 0 < p.text.length := List.length_pos_iff.2 (text_ne_nil (hps p List.mem_cons_self))
    have := ih (fun q hq => hps q (List.mem_cons_of_mem _ hq))
    simp only [List.length_cons, List.flatMap_cons, List.length_append]
    omega

theorem isBlank_of_isNumberChar {c : Char} (h : isNumberChar c = true) :
    Text.isBlank c = false := by
  simp only [isNumberChar, Bool.or_eq_true, beq_iff_eq] at h
  rcases h with h | rfl
  · have := Char.isDigit_iff_toNat.1 h
    simp only [Text.isBlank]
    simp at this ⊢
    omega
  · decide

/-! ## Units -/

/-- The unit names the reader knows. -/
def units : List String := ["ns", "us", "µs", "ms", "s", "m", "h"]

theorem mem_units_of_unitScale? {u : String} {s : Binary64} (h : unitScale? u = some s) :
    u ∈ units := by
  unfold unitScale? at h
  split_ifs at h <;> simp_all [units]
  tauto

theorem isSome_unitScale? {u : String} (hu : u ∈ units) : (unitScale? u).isSome := by
  simp only [units, List.mem_cons, List.not_mem_nil, or_false] at hu
  rcases hu with rfl | rfl | rfl | rfl | rfl | rfl | rfl <;> rfl

theorem units_toList : units.map String.toList =
    [['n', 's'], ['u', 's'], ['µ', 's'], ['m', 's'], ['s'], ['m'], ['h']] := rfl

/-- Unit names are not empty, and hold neither number characters nor blanks. -/
theorem units_chars {u : String} (hu : u ∈ units) : u.toList ≠ [] ∧
    ∀ c ∈ u.toList, isNumberChar c = false ∧ Text.isBlank c = false := by
  have h : u.toList ∈ units.map String.toList := List.mem_map_of_mem hu
  rw [units_toList] at h
  simp only [List.mem_cons, List.not_mem_nil, or_false] at h
  rcases h with h | h | h | h | h | h | h <;>
    simp only [h, ne_eq, reduceCtorEq, not_false_eq_true, List.mem_cons, List.not_mem_nil,
      or_false, forall_eq_or_imp, forall_eq, true_and] <;> decide

/-- Parts whose total reads carry known units. -/
theorem units_of_total? {total x : Binary64} :
    ∀ {ps : List Part}, total? total ps = some x → ∀ p ∈ ps, String.ofList p.unit ∈ units := by
  intro ps
  induction ps generalizing total with
  | nil => simp
  | cons p ps ih =>
    intro h q hq
    simp only [total?, Option.bind_eq_some_iff] at h
    obtain ⟨y, hy, hrest⟩ := h
    rcases List.mem_cons.1 hq with rfl | hq
    · simp only [Part.seconds?, Option.bind_eq_some_iff, Option.map_eq_some_iff] at hy
      obtain ⟨n, -, s, hs, -⟩ := hy
      exact mem_units_of_unitScale? hs
    · exact ih hrest q hq

/-! ## The loop over parts -/

theorem sumParts_nil (text : String) (fuel : Nat) (total : Binary64) :
    sumParts text fuel [] total = .ok total := by
  cases fuel <;> rfl

/-- One part the reader splits: it reads the number, looks the unit up, adds their product
and goes on after the unit. -/
theorem sumParts_split {p : Part} (hp : p.Split) {more : List Char}
    (hmore : ∀ c ∈ more.head?, isNumberChar c = true) (text : String) (fuel : Nat)
    (total n s : Binary64) (hn : Binary64.read? (String.ofList p.number) = some n)
    (hs : unitScale? (String.ofList p.unit) = some s) :
    sumParts text (fuel + 1) (p.text ++ more) total = sumParts text fuel more (total + n * s) := by
  obtain ⟨h1, h2, h3, h4⟩ := split_append hp hmore
  have hne : p.text ++ more ≠ [] := by simp [Part.text, hp.1]
  obtain ⟨c, cs, hc⟩ := List.exists_cons_of_ne_nil hne
  rw [hc, sumParts, ← hc]
  · simp [h1, h2, h3, h4, hp.1, hp.2.2.1, hn, hs]
  · exact List.cons_ne_nil c cs

/-- Parts the reader splits, each reading to its seconds, are summed in order, given one
step of fuel for each. -/
theorem sumParts_flatMap (text : String) :
    ∀ (ps : List Part) (fuel : Nat) (total x : Binary64), (∀ p ∈ ps, p.Split) →
      ps.length ≤ fuel → total? total ps = some x →
        sumParts text fuel (ps.flatMap Part.text) total = .ok x := by
  intro ps
  induction ps with
  | nil =>
    intro fuel total x _ _ h
    cases h
    exact sumParts_nil text fuel total
  | cons p ps ih =>
    intro fuel total x hps hlen h
    obtain ⟨f, rfl⟩ : ∃ f, fuel = f + 1 := ⟨fuel - 1, by simp at hlen; omega⟩
    simp only [total?, Option.bind_eq_some_iff] at h
    obtain ⟨y, hy, hrest⟩ := h
    simp only [Part.seconds?, Option.bind_eq_some_iff, Option.map_eq_some_iff] at hy
    obtain ⟨n, hn, s, hs, rfl⟩ := hy
    have hsplit := hps p List.mem_cons_self
    have htail : ∀ q ∈ ps, q.Split := fun q hq => hps q (List.mem_cons_of_mem _ hq)
    rw [List.flatMap_cons, sumParts_split hsplit (head_flatMap_text htail) text f total n s hn hs]
    exact ih f _ x htail (by simp at hlen; omega) hrest

/-- What the loop accepts is a run of parts it splits, each reading to its seconds, and it
answers their total. -/
theorem parts_of_sumParts {text : String} :
    ∀ {fuel : Nat} {cs : List Char} {total x : Binary64},
      sumParts text fuel cs total = .ok x →
        ∃ ps : List Part, cs = ps.flatMap Part.text ∧ (∀ p ∈ ps, p.Split) ∧
          total? total ps = some x := by
  intro fuel
  induction fuel with
  | zero =>
    intro cs total x h
    cases cs with
    | nil =>
      rw [sumParts_nil] at h
      cases h
      exact ⟨[], rfl, by simp, rfl⟩
    | cons c cs => simp [sumParts] at h
  | succ f ih =>
    intro cs total x h
    cases cs with
    | nil =>
      rw [sumParts_nil] at h
      cases h
      exact ⟨[], rfl, by simp, rfl⟩
    | cons c cs =>
      rw [sumParts] at h
      · generalize hnum : (c :: cs).takeWhile isNumberChar = num at h
        generalize hrest : (c :: cs).dropWhile isNumberChar = rest at h
        generalize hu : rest.takeWhile (fun x => !isNumberChar x) = u at h
        generalize hmore : rest.dropWhile (fun x => !isNumberChar x) = more at h
        simp only [throw, throwThe, MonadExceptOf.throw, bind, Except.bind] at h
        split at h
        · cases h
        rename_i hnume
        split at h
        · rename_i n hn
          split at h
          · cases h
          split at h
          · rename_i hune _ s hs
            rw [hu] at hs hune
            rw [hmore] at h
            obtain ⟨ps, rfl, hsplit, htot⟩ := ih h
            refine ⟨⟨num, u⟩ :: ps, ?_, ?_, ?_⟩
            · show c :: cs = (num ++ u) ++ ps.flatMap Part.text
              rw [List.append_assoc, ← hu, ← hmore, List.takeWhile_append_dropWhile, ← hnum,
                ← hrest, List.takeWhile_append_dropWhile]
            · intro p hp
              rcases List.mem_cons.1 hp with rfl | hp
              · refine ⟨by simpa using hnume, ?_, by simpa using hune, ?_⟩
                · intro d hd
                  rw [← hnum] at hd
                  exact List.mem_takeWhile_imp hd
                · intro d hd
                  rw [← hu] at hd
                  simpa using List.mem_takeWhile_imp hd
              · exact hsplit p hp
            · simp [total?, Part.seconds?, hn, hs, htot]
          · cases h
        · cases h
      · exact List.cons_ne_nil c cs

/-! ## Reading a duration -/

/-- Blanks around a text of parts with known units are trimmed away, and what is left is not
a bare number. -/
theorem trim_parts {ws ws' : List Char} (hws : ∀ c ∈ ws, Text.isBlank c = true)
    (hws' : ∀ c ∈ ws', Text.isBlank c = true) {ps : List Part} (hne : ps ≠ [])
    (hps : ∀ p ∈ ps, p.Split) (hunits : ∀ p ∈ ps, String.ofList p.unit ∈ units) :
    Text.trim (String.ofList (ws ++ ps.flatMap Part.text ++ ws')) =
        String.ofList (ps.flatMap Part.text) ∧
      Decimal.readNat? (String.ofList (ps.flatMap Part.text)) (Nat.pow 2 64) = none := by
  have hlast : ∀ c ∈ (ps.flatMap Part.text).getLast?, ∃ p ∈ ps, c ∈ p.unit :=
    mem_unit_of_getLast? hps
  have hblank : ∀ c ∈ (ps.flatMap Part.text).getLast?, Text.isBlank c = false := by
    intro c hc
    obtain ⟨p, hp, hcp⟩ := hlast c hc
    exact ((units_chars (hunits p hp)).2 c (by simpa using hcp)).2
  have htext : ps.flatMap Part.text ≠ [] := by
    obtain ⟨p, ps', rfl⟩ := List.exists_cons_of_ne_nil hne
    rw [List.flatMap_cons]
    exact List.append_ne_nil_of_left_ne_nil (text_ne_nil (hps p List.mem_cons_self)) _
  refine ⟨Text.trim_ofList_pad hws hws' htext ?_ hblank, ?_⟩
  · exact fun c hc => isBlank_of_isNumberChar (head_flatMap_text hps c hc)
  · cases h : Decimal.readNat? (String.ofList (ps.flatMap Part.text)) (Nat.pow 2 64) with
    | none => rfl
    | some v =>
      obtain ⟨c, hc⟩ := Option.ne_none_iff_exists'.1 (List.getLast?_eq_none_iff.not.2 htext)
      have hdigit := Decimal.readNat?_getLast h c (by simpa using hc)
      have := getLast?_flatMap_text hps c hc
      simp [isNumberChar, hdigit] at this

/-- **A duration of parts.** Blanks around a text of parts, each a number and a known unit,
do not matter; the text reads as the double sum of its parts, each number read as a double
and scaled by its unit in double arithmetic, converted to the nearest nanosecond. -/
theorem parse_parts {ws ws' : List Char} (hws : ∀ c ∈ ws, Text.isBlank c = true)
    (hws' : ∀ c ∈ ws', Text.isBlank c = true) {ps : List Part} (hne : ps ≠ [])
    (hps : ∀ p ∈ ps, p.Split) {x : Binary64} (hx : total? (Binary64.zero false) ps = some x) :
    parse (String.ofList (ws ++ ps.flatMap Part.text ++ ws')) =
      (ofSeconds? x).elim (.error (.durationOutOfRange (String.ofList (ps.flatMap Part.text))))
        .ok := by
  obtain ⟨htrim, hnat⟩ := trim_parts hws hws' hne hps (units_of_total? hx)
  have hsum := sumParts_flatMap (String.ofList (ps.flatMap Part.text)) ps
    (String.ofList (ps.flatMap Part.text)).length _ x hps
    (by simpa using length_le_flatMap_text hps) hx
  have hnonempty : (String.ofList (ps.flatMap Part.text)).isEmpty = false := by
    obtain ⟨p, ps', rfl⟩ := List.exists_cons_of_ne_nil hne
    simp [Part.text, (hps p List.mem_cons_self).1]
  unfold parse
  simp only [htrim, hnonempty, hnat, String.toList_ofList, hsum, Bool.false_eq_true,
    if_false, bind, Except.bind]
  cases ofSeconds? x <;> rfl

/-- What the reader accepts, when the text is not a bare number, is a text of parts whose
double sum converts to the answer. -/
theorem parts_of_parse {raw : String} {d : Duration} (h : parse raw = .ok d)
    (hnat : Decimal.readNat? (Text.trim raw) (Nat.pow 2 64) = none) :
    ∃ ps x, (Text.trim raw).toList = ps.flatMap Part.text ∧ ps ≠ [] ∧ (∀ p ∈ ps, p.Split) ∧
      total? (Binary64.zero false) ps = some x ∧ ofSeconds? x = some d := by
  unfold parse at h
  cases he : (Text.trim raw).isEmpty
  · simp only [he, hnat, Bool.false_eq_true, if_false, bind, Except.bind] at h
    split at h
    · cases h
    · rename_i total hs
      obtain ⟨ps, hcs, hsplit, htot⟩ := parts_of_sumParts hs
      have hne : ps ≠ [] := by
        rintro rfl
        simp [← String.toList_eq_nil_iff, hcs] at he
      cases hd : ofSeconds? total with
      | none => simp [hd, throw, throwThe, MonadExceptOf.throw] at h
      | some d' =>
        simp only [hd, pure, Except.pure, Except.ok.injEq] at h
        exact ⟨ps, total, hcs, hne, hsplit, htot, h ▸ hd⟩
  · simp [he, throw, throwThe, MonadExceptOf.throw, bind, Except.bind] at h

/-- **Malformed durations.** A text that is not a bare number fails when it ends with a
number (a number lacks its unit), starts with something other than a number (it starts with
a unit), or splits into parts one of which has a unit the reader does not know. -/
theorem parse_fails {raw : String}
    (hnat : Decimal.readNat? (Text.trim raw) (Nat.pow 2 64) = none)
    (hbad : (∃ c ∈ (Text.trim raw).toList.getLast?, isNumberChar c = true) ∨
      (∃ c ∈ (Text.trim raw).toList.head?, isNumberChar c = false) ∨
      ∃ qs : List Part, (∀ q ∈ qs, q.Split) ∧ (Text.trim raw).toList = qs.flatMap Part.text ∧
        ∃ q ∈ qs, unitScale? (String.ofList q.unit) = none) :
    ∃ e, parse raw = .error e := by
  cases h : parse raw with
  | error e => exact ⟨e, rfl⟩
  | ok d =>
    exfalso
    obtain ⟨ps, x, htext, -, hsplit, htot, -⟩ := parts_of_parse h hnat
    rcases hbad with ⟨c, hc, hnum⟩ | ⟨c, hc, hnum⟩ | ⟨qs, hqs, htq, q, hq, hunit⟩
    · rw [htext] at hc
      rw [getLast?_flatMap_text hsplit c hc] at hnum
      cases hnum
    · rw [htext] at hc
      rw [head_flatMap_text hsplit c hc] at hnum
      cases hnum
    · -- the text splits one way only, and the reader's split has known units
      have hpq : ps = qs := flatMap_text_inj hsplit hqs (htext.symm.trans htq)
      subst hpq
      have := isSome_unitScale? (units_of_total? htot q hq)
      rw [hunit] at this
      cases this

/-- **Bare numbers.** A run of digits, blanks around it, reads as that many seconds when
below `2^64`. -/
theorem parse_digits {ws ws' : List Char} (hws : ∀ c ∈ ws, Text.isBlank c = true)
    (hws' : ∀ c ∈ ws', Text.isBlank c = true) {ds : List Char} (hne : ds ≠ [])
    (hd : ∀ c ∈ ds, c.isDigit = true) (hv : Decimal.digitsValue ds < Nat.pow 2 64) :
    parse (String.ofList (ws ++ ds ++ ws')) = .ok (ofSecs (Decimal.digitsValue ds)) := by
  have hblank : ∀ c ∈ ds, Text.isBlank c = false :=
    fun c hc => isBlank_of_isNumberChar (by simp [isNumberChar, hd c hc])
  have htrim := Text.trim_ofList_pad hws hws' hne (fun c hc => hblank c (List.mem_of_mem_head? hc))
    (fun c hc => hblank c (List.mem_of_getLast? hc))
  have hnonempty : (String.ofList ds).isEmpty = false := by
    obtain ⟨c, cs, rfl⟩ := List.exists_cons_of_ne_nil hne
    simp
  unfold parse
  simp only [htrim, hnonempty, Decimal.readNat?_digits hne hd, if_pos hv, Bool.false_eq_true,
    if_false]
  rfl

theorem toString_eq_ofList (n : Nat) : toString n = String.ofList (Nat.toDigits 10 n) := by
  rw [← Nat.toList_repr, String.ofList_toList]
  rfl

/-- A number below `2^64` written out reads as that many seconds. -/
theorem parse_toString {n : Nat} (hn : n < Nat.pow 2 64) : parse (toString n) = .ok (ofSecs n) := by
  have h := @parse_digits [] [] (by simp) (by simp) (Nat.toDigits 10 n) Nat.toDigits_ne_nil
    (fun _ hc => Nat.isDigit_of_mem_toDigits (by decide) (by decide) hc)
    (by rwa [Decimal.digitsValue_toDigits])
  rwa [List.nil_append, List.append_nil, Decimal.digitsValue_toDigits, ← toString_eq_ofList] at h

/-! ## Whole numbers of seconds -/

/-- A whole number of seconds below `2^53` is a double exactly, and converts back to itself
with no nanoseconds. -/
theorem ofSeconds?_ofNat {n : Nat} (hlt : n < 2 ^ 53) :
    ofSeconds? (Binary64.ofNat n) = some (ofSecs n) := by
  obtain ⟨k, hv, -⟩ := Binary64.view_ofNat hlt
  have hk : (-(k : Int)).toNat = 0 := by omega
  have hk' : (-(-(k : Int))).toNat = k := by omega
  have hm : n <<< k * nanosPerSec * Nat.pow 2 0 = n * nanosPerSec * Nat.pow 2 k := by
    simp only [Nat.shiftLeft_eq, Nat.pow_eq, pow_zero, Nat.mul_one]; ring
  have hfit : ¬ n <<< k * Nat.pow 2 0 ≥ Nat.pow 2 64 * Nat.pow 2 k := by
    simp only [Nat.shiftLeft_eq, Nat.pow_eq, pow_zero, Nat.mul_one, not_le]
    exact Nat.mul_lt_mul_of_pos_right (by omega) (by positivity)
  unfold ofSeconds?
  simp only [hv, hk, hk', Bool.false_and, Bool.false_eq_true, if_false, if_neg hfit, hm]
  rw [Binary64.roundHalfEven_mul (by simp only [Nat.pow_eq]; positivity)]
  simp [ofSecs, nanosPerSec]

/-- The length in seconds of the units that are whole numbers of seconds. -/
def unitSeconds? (u : String) : Option Nat :=
  if u == "s" then some 1 else if u == "m" then some 60 else if u == "h" then some 3600
  else none

/-- The whole seconds of parts whose numbers are runs of digits and whose units are `s`, `m`
or `h`; `none` when some part is not of that form. -/
def wholeSeconds? : List Part → Option Nat
  | [] => some 0
  | p :: ps =>
    if p.number ≠ [] ∧ ∀ c ∈ p.number, c.isDigit = true then
      (unitSeconds? (String.ofList p.unit)).bind fun w =>
        (wholeSeconds? ps).map fun m => Decimal.digitsValue p.number * w + m
    else none

theorem unitScale?_of_unitSeconds? {u : String} {w : Nat} (h : unitSeconds? u = some w) :
    unitScale? u = some (Binary64.ofNat w) ∧ 0 < w ∧ w ≤ 3600 := by
  unfold unitSeconds? at h
  split_ifs at h with h₁ h₂ h₃ <;> cases h
  · rw [beq_iff_eq.1 h₁]; exact ⟨rfl, by omega, by omega⟩
  · rw [beq_iff_eq.1 h₂]; exact ⟨rfl, by omega, by omega⟩
  · rw [beq_iff_eq.1 h₃]; exact ⟨rfl, by omega, by omega⟩

theorem split_of_digits {p : Part} (hne : p.number ≠ [])
    (hd : ∀ c ∈ p.number, c.isDigit = true) (hu : String.ofList p.unit ∈ units) : p.Split := by
  obtain ⟨hu₁, hu₂⟩ := units_chars hu
  rw [String.toList_ofList] at hu₁ hu₂
  exact ⟨hne, fun c hc => by simp [isNumberChar, hd c hc], hu₁, fun c hc => (hu₂ c hc).1⟩

/-- Whole numbers in units of whole seconds, added onto a whole total, add exactly while
the sum stays below `2^53`. -/
theorem total?_of_wholeSeconds? :
    ∀ {ps : List Part} {acc n : Nat}, wholeSeconds? ps = some n → acc + n < 2 ^ 53 →
      total? (Binary64.ofNat acc) ps = some (Binary64.ofNat (acc + n)) ∧ ∀ p ∈ ps, p.Split
  | [], acc, n, h, _ => by
    cases h
    exact ⟨rfl, by simp⟩
  | p :: ps, acc, n, h, hlt => by
    unfold wholeSeconds? at h
    split_ifs at h with hd
    simp only [Option.bind_eq_some_iff, Option.map_eq_some_iff] at h
    obtain ⟨w, hw, m, hm, rfl⟩ := h
    obtain ⟨hscale, hw₀, hw₁⟩ := unitScale?_of_unitSeconds? hw
    set v := Decimal.digitsValue p.number
    have hv : v ≤ v * w := Nat.le_mul_of_pos_right v hw₀
    -- the part's seconds and the new total are both exact
    have hmul : Binary64.ofNat v * Binary64.ofNat w = Binary64.ofNat (v * w) :=
      Binary64.ofNat_mul_ofNat (by omega) (by omega) (by omega)
    have hadd : Binary64.ofNat acc + Binary64.ofNat (v * w) = Binary64.ofNat (acc + v * w) :=
      Binary64.ofNat_add_ofNat (by omega)
    have hsec : p.seconds? = some (Binary64.ofNat (v * w)) := by
      simp [Part.seconds?, Binary64.read?_digits hd.1 hd.2, hscale, hmul, v]
    obtain ⟨hrest, hsplit⟩ := @total?_of_wholeSeconds? ps (acc + v * w) m hm (by omega)
    refine ⟨?_, ?_⟩
    · rw [total?, hsec, Option.bind_some, hadd, hrest, Nat.add_assoc]
    · intro q hq
      rcases List.mem_cons.1 hq with rfl | hq
      · exact split_of_digits hd.1 hd.2
          (mem_units_of_unitScale? hscale)
      · exact hsplit q hq

/-- **Whole durations are exact.** A text of parts whose numbers are runs of digits and whose
units are `s`, `m` and `h` reads as exactly its number of seconds while that stays below
`2^53`. -/
theorem parse_wholeSeconds {ws ws' : List Char} (hws : ∀ c ∈ ws, Text.isBlank c = true)
    (hws' : ∀ c ∈ ws', Text.isBlank c = true) {ps : List Part} (hne : ps ≠ []) {n : Nat}
    (h : wholeSeconds? ps = some n) (hn : n < 2 ^ 53) :
    parse (String.ofList (ws ++ ps.flatMap Part.text ++ ws')) = .ok (ofSecs n) := by
  obtain ⟨htot, hsplit⟩ := @total?_of_wholeSeconds? ps 0 n h (by omega)
  rw [Binary64.ofNat_zero, Nat.zero_add] at htot
  rw [parse_parts hws hws' hne hsplit htot, ofSeconds?_ofNat hn]
  rfl

/-- A number below `2^53` of seconds, written with the unit `s`, reads as that many seconds. -/
theorem parse_toString_seconds {n : Nat} (hn : n < 2 ^ 53) :
    parse (toString n ++ "s") = .ok (ofSecs n) := by
  have hw : wholeSeconds? [⟨Nat.toDigits 10 n, ['s']⟩] = some n := by
    rw [wholeSeconds?, if_pos ⟨Nat.toDigits_ne_nil,
      fun _ hc => Nat.isDigit_of_mem_toDigits (by decide) (by decide) hc⟩]
    simp [unitSeconds?, wholeSeconds?, Decimal.digitsValue_toDigits]
  have h := @parse_wholeSeconds [] [] (by simp) (by simp) _ (List.cons_ne_nil _ _) n hw hn
  have heq : toString n ++ "s" = String.ofList (Nat.toDigits 10 n ++ ['s']) := by
    rw [String.ofList_append, ← toString_eq_ofList]
  rw [List.nil_append, List.append_nil, List.flatMap_singleton] at h
  rw [heq]
  exact h

/-- **How a duration text reads.** Around a text, blanks do not matter. A text of parts,
each a number and a known unit, reads as the double sum of its parts converted to the nearest
nanosecond; when every number is whole and every unit is `s`, `m` or `h` this is the exact
sum below `2^53` seconds. A bare run of digits reads as that many seconds below `2^64`, and
below `2^53` it reads the same with the unit `s`. A text that is not a bare number fails when
it ends in a number, starts with something other than a number, or has an unknown unit. -/
theorem parse_duration_reads_parts (ws ws' : List Char) (hws : ∀ c ∈ ws, Text.isBlank c = true)
    (hws' : ∀ c ∈ ws', Text.isBlank c = true) :
    (∀ (ps : List Part) (x : Binary64), ps ≠ [] → (∀ p ∈ ps, p.Split) →
      total? (Binary64.zero false) ps = some x →
      parse (String.ofList (ws ++ ps.flatMap Part.text ++ ws')) =
        (ofSeconds? x).elim
          (.error (.durationOutOfRange (String.ofList (ps.flatMap Part.text)))) .ok) ∧
    (∀ (ps : List Part) (n : Nat), ps ≠ [] → wholeSeconds? ps = some n → n < 2 ^ 53 →
      parse (String.ofList (ws ++ ps.flatMap Part.text ++ ws')) = .ok (ofSecs n)) ∧
    (∀ ds : List Char, ds ≠ [] → (∀ c ∈ ds, c.isDigit = true) →
      Decimal.digitsValue ds < Nat.pow 2 64 →
      parse (String.ofList (ws ++ ds ++ ws')) = .ok (ofSecs (Decimal.digitsValue ds))) ∧
    (∀ n : Nat, n < 2 ^ 53 →
      parse (toString n ++ "s") = .ok (ofSecs n) ∧ parse (toString n) = .ok (ofSecs n)) ∧
    (∀ raw : String, Decimal.readNat? (Text.trim raw) (Nat.pow 2 64) = none →
      ((∃ c ∈ (Text.trim raw).toList.getLast?, isNumberChar c = true) ∨
        (∃ c ∈ (Text.trim raw).toList.head?, isNumberChar c = false) ∨
        ∃ qs : List Part, (∀ q ∈ qs, q.Split) ∧ (Text.trim raw).toList = qs.flatMap Part.text ∧
          ∃ q ∈ qs, unitScale? (String.ofList q.unit) = none) →
      ∃ e, parse raw = .error e) := by
  refine ⟨fun ps x hne hps hx => parse_parts hws hws' hne hps hx,
    fun ps n hne h hn => parse_wholeSeconds hws hws' hne h hn,
    fun ds hne hd hv => parse_digits hws hws' hne hd hv,
    fun n hn => ⟨parse_toString_seconds hn, parse_toString ?_⟩,
    fun raw hnat hbad => parse_fails hnat hbad⟩
  rw [Nat.pow_eq]
  omega

theorem parse_duration_hours_minutes : parse " 1h30m" = .ok (ofSecs 5400) :=
  (parse_duration_reads_parts [' '] [] (by simp only [List.mem_singleton, forall_eq]; decide)
    (by simp)).2.1 [⟨['1'], ['h']⟩, ⟨['3', '0'], ['m']⟩] 5400 (by simp)
    (by simp [wholeSeconds?, unitSeconds?, Decimal.digitsValue]) (by norm_num)

/-- Above `2^53` the unit path rounds the number to a double first: `9007199254740993s` is one
second short of the bare `9007199254740993`, and `u64::MAX` seconds with the unit `s` rounds up
to `2^64` and is out of range. -/
theorem parse_seconds_rounds_to_double :
    parse "9007199254740993s" = .ok (ofSecs 9007199254740992) ∧
      parse "9007199254740993" = .ok (ofSecs 9007199254740993) ∧
      parse "18446744073709551615s" = .error (.durationOutOfRange "18446744073709551615s") ∧
      parse "18446744073709551615" = .ok (ofSecs 18446744073709551615) :=
  ⟨by decide +kernel, by decide +kernel, by decide +kernel, by decide +kernel⟩

end Duration

end Telemetry
