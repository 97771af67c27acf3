import Mathlib
import Telemetry.Proofs.Json.Documents

/-
  Line ends in JSON text.

  `PlainBreaks x y` says that `y` is the text `x` with its line ends made plain: the carriage
  return of some `CR LF` pairs dropped, and line feeds added at the end. Carriage return and
  line feed are both blanks between tokens and both end a number, and neither may stand in a
  string, so the reader cannot tell such texts apart. At any fuel its stages read both alike
  (`readsAlike`), and a whole document reads the same (`read?_plainBreaks`).

  The two texts differ in length and so in the fuel `read?` gives them. Every stage of the
  reader consumes input (`consumes`), so fuel beyond twice the length of the input changes
  nothing (`value_fuel_eq`).
-/

namespace Telemetry

namespace Json

/-! ## Stages that read a prefix -/

theorem le_of_isHexByte {h : UInt8} (hh : isHexByte h = true) : 0x20 ≤ h := by
  simp only [isHexByte, isDigitByte, Bool.or_eq_true, Bool.and_eq_true, decide_eq_true_eq,
    UInt8.le_iff_toNat_le, UInt8.reduceToNat] at hh ⊢
  omega

/-- A string body read from the input is a prefix of printable bytes that reads the same
whatever follows it. -/
theorem stringBody_split {bs acc name rest : List UInt8}
    (h : stringBody bs acc = some (name, rest)) :
    ∃ p, bs = p ++ rest ∧ p ≠ [] ∧ (∀ b ∈ p, 0x20 ≤ b) ∧
      ∀ z, stringBody (p ++ z) acc = some (name, z) := by
  fun_induction stringBody bs acc with
  | case2 b bs acc hq =>
    cases h
    refine ⟨[b], rfl, by simp, ?_, fun z => by rw [stringBody.eq_def]; simp [hq]⟩
    simp only [beq_iff_eq] at hq
    simp [hq]
  | case4 b acc hq hc hs e hu h1 h2 h3 h4 r hx ih =>
    obtain ⟨p, rfl, -, hp, hz⟩ := ih h
    simp only [Bool.and_eq_true] at hx
    refine ⟨b :: e :: h1 :: h2 :: h3 :: h4 :: p, rfl, by simp, ?_, fun z => ?_⟩
    · simp only [beq_iff_eq] at hs hu
      simp only [List.mem_cons, forall_eq_or_imp, hs, hu]
      exact ⟨by decide, by decide, le_of_isHexByte hx.1.1.1, le_of_isHexByte hx.1.1.2,
        le_of_isHexByte hx.1.2, le_of_isHexByte hx.2, hp⟩
    · rw [stringBody.eq_def]
      simp [hq, hc, hs, hu, hx, hz]
  | case7 b acc hq hc hs e r hu he ih =>
    obtain ⟨p, rfl, -, hp, hz⟩ := ih h
    refine ⟨b :: e :: p, rfl, by simp, ?_, fun z => ?_⟩
    · simp only [beq_iff_eq] at hs
      simp only [Bool.or_eq_true, beq_iff_eq] at he
      simp only [List.mem_cons, forall_eq_or_imp, hs]
      refine ⟨by decide, ?_, hp⟩
      rcases he with (((((((rfl | rfl) | rfl) | rfl) | rfl) | rfl) | rfl) | rfl) <;> decide
    · rw [stringBody.eq_def]
      simp [hq, hc, hs, hu, he, hz]
  | case10 b r acc hq hc hs ih =>
    obtain ⟨p, rfl, -, hp, hz⟩ := ih h
    refine ⟨b :: p, rfl, by simp, ?_, fun z => ?_⟩
    · simp only [List.mem_cons, forall_eq_or_imp]
      exact ⟨UInt8.not_lt.1 hc, hp⟩
    · rw [stringBody.eq_def]
      simp [hq, hc, hs, hz]
  | _ => cases h

theorem stringBody_consumes {bs acc name rest : List UInt8}
    (h : stringBody bs acc = some (name, rest)) : rest.length < bs.length := by
  obtain ⟨p, rfl, hp, -, -⟩ := stringBody_split h
  simp [List.length_pos_iff.2 hp]

theorem isBlankByte_of_skipBlank {bs rest : List UInt8} {b : UInt8}
    (h : skipBlank bs = b :: rest) : isBlankByte b = false := by
  have := List.head?_dropWhile_not isBlankByte bs
  unfold skipBlank at h
  rw [h] at this
  exact this

theorem literal_eq_some {w bs r : List UInt8} : literal w bs = some r ↔ bs = w ++ r := by
  unfold literal
  split
  · rename_i hw
    rw [List.isPrefixOf_iff_prefix, List.prefix_iff_eq_append] at hw
    constructor
    · rintro ⟨⟩
      exact hw.symm
    · rintro rfl
      simp
  · rename_i hw
    simp only [reduceCtorEq, false_iff]
    rintro rfl
    exact hw (by simp)

theorem ne_of_control {b c : UInt8} (hb : b < 0x20) (hc : 0x20 ≤ c) : b ≠ c := by
  rintro rfl
  exact absurd hb (UInt8.not_lt.2 hc)

theorem numberSign_of_head {x : List UInt8} (hx : ∀ b ∈ x.head?, b ≠ 0x2d) :
    numberSign x = ([], x) := by
  unfold numberSign
  split
  · simp at hx
  · rfl

theorem exponentSign_of_head {x : List UInt8} (hx : ∀ b ∈ x.head?, b ≠ 0x2b ∧ b ≠ 0x2d) :
    exponentSign x = ([], x) := by
  unfold exponentSign
  split
  · simp at hx
  · simp at hx
  · rfl

theorem fraction_of_head {x : List UInt8} (hx : ∀ b ∈ x.head?, b ≠ 0x2e) :
    fraction x = some ([], x) := by
  unfold fraction
  split
  · simp at hx
  · rfl

theorem exponent_of_head {x : List UInt8} (hx : ∀ b ∈ x.head?, b ≠ 0x65 ∧ b ≠ 0x45) :
    exponent x = some ([], x) := by
  cases x with
  | nil => rfl
  | cons e r =>
    simp only [List.head?_cons, Option.mem_def, Option.some.injEq, forall_eq'] at hx
    simp [exponent, hx.1, hx.2]

/-! ## Every step consumes input -/

theorem length_skipBlank_le (bs : List UInt8) : (skipBlank bs).length ≤ bs.length :=
  List.length_dropWhile_le isBlankByte bs

theorem length_lt_of_skipBlank {bs rest : List UInt8} {b : UInt8} (h : skipBlank bs = b :: rest) :
    rest.length < bs.length := by
  have := length_skipBlank_le bs
  rw [h, List.length_cons] at this
  omega

theorem length_dropWhile_lt {p : UInt8 → Bool} {bs : List UInt8} (h : bs.takeWhile p ≠ []) :
    (bs.dropWhile p).length < bs.length := by
  have := congrArg List.length (@List.takeWhile_append_dropWhile _ p bs)
  rw [List.length_append] at this
  have := List.length_pos_iff.2 h
  omega

theorem fraction_consumes {bs frac rest : List UInt8} (h : fraction bs = some (frac, rest)) :
    rest.length ≤ bs.length := by
  unfold fraction at h
  split at h
  · dsimp only at h
    split at h
    · cases h
    · cases h
      simp only [List.length_cons]
      have := List.length_dropWhile_le isDigitByte ‹List UInt8›
      omega
  · cases h
    exact le_rfl

theorem exponent_consumes {bs ex rest : List UInt8} (h : exponent bs = some (ex, rest)) :
    rest.length ≤ bs.length := by
  unfold exponent at h
  split at h
  · rename_i e r
    split at h
    · have hs : (exponentSign r).2.length ≤ r.length := by
        unfold exponentSign
        split <;> simp
      dsimp only at h
      split at h
      · cases h
      · cases h
        have := List.length_dropWhile_le isDigitByte (exponentSign r).2
        simp only [List.length_cons]
        omega
    · cases h
      exact le_rfl
  · cases h
    exact le_rfl

theorem numberToken_consumes {bs rest : List UInt8} {t : String}
    (h : numberToken bs = some (t, rest)) : rest.length < bs.length := by
  unfold numberToken at h
  have hs : (numberSign bs).2.length ≤ bs.length := by
    unfold numberSign
    split <;> simp
  generalize numberSign bs = s at h hs
  obtain ⟨sign, r⟩ := s
  dsimp only at h hs
  split at h
  · cases h
  rename_i hok
  -- the integer digits are not empty, so the run before the fraction is shorter
  have hw : r.takeWhile isDigitByte ≠ [] := by
    intro hw
    rw [hw] at hok
    exact hok rfl
  have hd := length_dropWhile_lt hw
  obtain ⟨⟨frac, r₁⟩, hf, he⟩ := Option.bind_eq_some_iff.1 h
  obtain ⟨⟨ex, r₂⟩, he', heq⟩ := Option.map_eq_some_iff.1 he
  cases heq
  dsimp only at he' ⊢
  have := fraction_consumes hf
  have := exponent_consumes he'
  omega


/-- Every stage of the reader at `fuel` that returns stops strictly inside its input. -/
def Consumes (fuel : Nat) : Prop :=
  (∀ {bs j r}, value fuel bs = some (j, r) → r.length < bs.length) ∧
    (∀ {bs acc j r}, items fuel bs acc = some (j, r) → r.length < bs.length) ∧
    (∀ {bs acc j r}, members fuel bs acc = some (j, r) → r.length < bs.length)

namespace Consumes

variable {fuel : Nat} {bs r : List UInt8} {j : Json}

theorem value_succ (ih : Consumes fuel) (h : value (fuel + 1) bs = some (j, r)) :
    r.length < bs.length := by
  rw [value.eq_2] at h
  rcases hs : skipBlank bs with _ | ⟨b, rest⟩
  · rw [hs] at h
    cases h
  rw [hs] at h
  have hb := length_lt_of_skipBlank hs
  have hr := length_skipBlank_le rest
  dsimp only at h
  split_ifs at h
  · have := ih.2.2 h
    omega
  · have := ih.2.1 h
    omega
  · obtain ⟨⟨s, r'⟩, hsb, heq⟩ := Option.map_eq_some_iff.1 h
    cases heq
    dsimp only
    have := stringBody_consumes hsb
    omega
  -- the three literals
  all_goals try
    obtain ⟨r', hl, heq⟩ := Option.map_eq_some_iff.1 h
    cases heq
    rw [literal_eq_some] at hl
    subst hl
    simp only [List.length_append, List.length_cons] at hb
    omega
  -- a number
  obtain ⟨⟨t, r'⟩, hn, heq⟩ := Option.map_eq_some_iff.1 h
  cases heq
  dsimp only
  have := numberToken_consumes hn
  simp only [List.length_cons] at this
  omega

theorem items_succ (ih : Consumes fuel) {acc : List Json}
    (h : items (fuel + 1) bs acc = some (j, r)) : r.length < bs.length := by
  by_cases hc : ∃ x', bs = 0x5d :: x' ∧ acc = []
  · obtain ⟨x', rfl, rfl⟩ := hc
    rw [items.eq_2] at h
    cases h
    simp
  rw [items.eq_3 _ _ _ fun rest hr ha => hc ⟨rest, hr, ha⟩] at h
  split at h
  · cases h
  rename_i v rest hvr
  have h₁ := ih.1 hvr
  have h₂ := length_skipBlank_le rest
  -- after the item, a comma and more items, or the closing bracket
  split at h
  · rename_i r₁ hs
    have h₃ := ih.2.1 h
    have h₄ := length_lt_of_skipBlank hs
    have h₅ := length_skipBlank_le r₁
    omega
  · rename_i r₁ hs
    cases h
    have h₄ := length_lt_of_skipBlank hs
    omega
  · cases h

theorem members_succ (ih : Consumes fuel) {acc : List (List UInt8 × Json)}
    (h : members (fuel + 1) bs acc = some (j, r)) : r.length < bs.length := by
  by_cases hc : ∃ x', bs = 0x7d :: x' ∧ acc = []
  · obtain ⟨x', rfl, rfl⟩ := hc
    rw [members.eq_2] at h
    cases h
    simp
  by_cases hq : ∃ x', bs = 0x22 :: x'
  · obtain ⟨x', rfl⟩ := hq
    rw [members.eq_3] at h
    split at h
    · cases h
    rename_i name r₀ hsb
    have h₀ := stringBody_consumes hsb
    have h₀' := length_skipBlank_le r₀
    -- the name, a colon, the value, then a comma and more members or the closing brace
    split at h
    · rename_i r₁ hs₁
      have h₁ := length_lt_of_skipBlank hs₁
      split at h
      · cases h
      rename_i v r₂ hvr
      have h₂ := ih.1 hvr
      have h₂' := length_skipBlank_le r₂
      split at h
      · rename_i r₃ hs₃
        have h₃ := ih.2.2 h
        have h₃' := length_lt_of_skipBlank hs₃
        have h₃'' := length_skipBlank_le r₃
        simp only [List.length_cons]
        omega
      · rename_i r₃ hs₃
        cases h
        have h₃' := length_lt_of_skipBlank hs₃
        simp only [List.length_cons]
        omega
      · cases h
    · cases h
  rw [members.eq_4 _ _ _ (fun rest hr => hq ⟨rest, hr⟩)
    (fun rest hr ha => hc ⟨rest, hr, ha⟩)] at h
  cases h

end Consumes

/-- Each stage of the reader that returns stops strictly inside its input. -/
theorem consumes : ∀ fuel, Consumes fuel
  | 0 => by
    refine ⟨fun h => ?_, fun h => ?_, fun h => ?_⟩
    · rw [value.eq_1] at h
      cases h
    · rw [items.eq_1] at h
      cases h
    · rw [members.eq_1] at h
      cases h
  | fuel + 1 => ⟨(consumes fuel).value_succ, (consumes fuel).items_succ,
      (consumes fuel).members_succ⟩

/-- At `fuel`, one more unit of fuel changes no stage of the reader once there is twice the
input's length: a nested value costs two units and consumes at least its opening bracket. -/
def Steady (fuel : Nat) : Prop :=
  (∀ bs, 2 * bs.length + 2 ≤ fuel → value (fuel + 1) bs = value fuel bs) ∧
    (∀ bs acc, 2 * bs.length + 3 ≤ fuel → items (fuel + 1) bs acc = items fuel bs acc) ∧
    (∀ bs acc, 2 * bs.length + 3 ≤ fuel → members (fuel + 1) bs acc = members fuel bs acc)

namespace Steady

variable {fuel : Nat}

theorem value_succ (ih : Steady fuel) (bs : List UInt8) (hf : 2 * bs.length + 2 ≤ fuel + 1) :
    value (fuel + 1 + 1) bs = value (fuel + 1) bs := by
  rw [value.eq_2, value.eq_2]
  rcases hs : skipBlank bs with _ | ⟨b, rest⟩
  · rfl
  have hb := length_lt_of_skipBlank hs
  have hr := length_skipBlank_le rest
  dsimp only
  split_ifs
  · exact ih.2.2 _ _ (by omega)
  · exact ih.2.1 _ _ (by omega)
  all_goals rfl

theorem items_succ (ih : Steady fuel) (bs : List UInt8) (acc : List Json)
    (hf : 2 * bs.length + 3 ≤ fuel + 1) :
    items (fuel + 1 + 1) bs acc = items (fuel + 1) bs acc := by
  by_cases hc : ∃ x', bs = 0x5d :: x' ∧ acc = []
  · obtain ⟨x', rfl, rfl⟩ := hc
    rw [items.eq_2, items.eq_2]
  have hx : ∀ rest, bs = 0x5d :: rest → acc = [] → False := fun rest hr ha =>
    hc ⟨rest, hr, ha⟩
  rw [items.eq_3 _ _ _ hx, items.eq_3 _ _ _ hx, ih.1 bs (by omega)]
  cases hvr : value fuel bs with
  | none => rfl
  | some p =>
    obtain ⟨v, rest⟩ := p
    have h₁ := (consumes fuel).1 hvr
    dsimp only
    split
    · rename_i r hs
      have := length_lt_of_skipBlank hs
      have := length_skipBlank_le r
      exact ih.2.1 _ _ (by omega)
    · rfl
    · rfl

theorem members_succ (ih : Steady fuel) (bs : List UInt8) (acc : List (List UInt8 × Json))
    (hf : 2 * bs.length + 3 ≤ fuel + 1) :
    members (fuel + 1 + 1) bs acc = members (fuel + 1) bs acc := by
  by_cases hc : ∃ x', bs = 0x7d :: x' ∧ acc = []
  · obtain ⟨x', rfl, rfl⟩ := hc
    rw [members.eq_2, members.eq_2]
  by_cases hq : ∃ x', bs = 0x22 :: x'
  · obtain ⟨x', rfl⟩ := hq
    simp only [List.length_cons] at hf
    rw [members.eq_3, members.eq_3]
    cases hsb : stringBody x' [] with
    | none => rfl
    | some p =>
      obtain ⟨name, r₀⟩ := p
      have h₀ := stringBody_consumes hsb
      dsimp only
      split
      · rename_i r₁ hs₁
        have := length_lt_of_skipBlank hs₁
        have := length_skipBlank_le r₀
        rw [ih.1 r₁ (by omega)]
        cases hvr : value fuel r₁ with
        | none => rfl
        | some q =>
          obtain ⟨v, r₂⟩ := q
          have := (consumes fuel).1 hvr
          dsimp only
          split
          · rename_i r₃ hs₃
            have := length_lt_of_skipBlank hs₃
            have := length_skipBlank_le r₃
            have := length_skipBlank_le r₂
            exact ih.2.2 _ _ (by omega)
          · rfl
          · rfl
      · rfl
  have h₁ : ∀ rest, bs = 0x22 :: rest → False := fun rest hr => hq ⟨rest, hr⟩
  have h₂ : ∀ rest, bs = 0x7d :: rest → acc = [] → False := fun rest hr ha =>
    hc ⟨rest, hr, ha⟩
  rw [members.eq_4 _ _ _ h₁ h₂, members.eq_4 _ _ _ h₁ h₂]

end Steady

theorem steady : ∀ fuel, Steady fuel
  | 0 => ⟨fun _ h => by omega, fun _ _ h => by omega, fun _ _ h => by omega⟩
  | fuel + 1 => ⟨(steady fuel).value_succ, (steady fuel).items_succ, (steady fuel).members_succ⟩

theorem value_fuel_eq {bs : List UInt8} {f g : Nat} (hf : 2 * bs.length + 2 ≤ f) (hfg : f ≤ g) :
    value g bs = value f bs := by
  induction g, hfg using Nat.le_induction with
  | base => rfl
  | succ g hfg ih => rw [(steady g).1 bs (le_trans hf hfg), ih]


/-! ## Plain line ends -/

/-- `y` is the text `x` with its line ends made plain: the carriage return of some
`CR LF` pairs dropped, and line feeds added at the end. -/
inductive PlainBreaks : List UInt8 → List UInt8 → Prop
  | ends {y : List UInt8} : (∀ b ∈ y, b = 0x0a) → PlainBreaks [] y
  | cons (b : UInt8) {x y : List UInt8} : PlainBreaks x y → PlainBreaks (b :: x) (b :: y)
  | dropReturn {x y : List UInt8} : PlainBreaks (0x0a :: x) y →
      PlainBreaks (0x0d :: 0x0a :: x) y

namespace PlainBreaks

variable {x y : List UInt8}

theorem prepend (p : List UInt8) (h : PlainBreaks x y) : PlainBreaks (p ++ x) (p ++ y) := by
  induction p with
  | nil => exact h
  | cons b p ih => exact .cons b ih

/-- A first byte other than a carriage return is kept. -/
theorem cons_left {b : UInt8} (h : PlainBreaks (b :: x) y) (hb : b ≠ 0x0d) :
    ∃ y', y = b :: y' ∧ PlainBreaks x y' := by
  cases h with
  | cons _ h => exact ⟨_, rfl, h⟩
  | dropReturn => exact absurd rfl hb

/-- A first byte other than a line feed was there before. -/
theorem cons_right {b : UInt8} (h : PlainBreaks x (b :: y)) (hb : b ≠ 0x0a) :
    ∃ x', x = b :: x' ∧ PlainBreaks x' y := by
  generalize hy : b :: y = y₀ at h
  induction h with
  | ends hall => exact absurd (hall b (by simp [← hy])) hb
  | cons c h => cases hy; exact ⟨_, rfl, h⟩
  | dropReturn h ih =>
    obtain ⟨x', hx, -⟩ := ih hy
    cases hx
    exact absurd rfl hb

theorem append_left {p : List UInt8} (h : PlainBreaks (p ++ x) y) (hp : ∀ b ∈ p, 0x20 ≤ b) :
    ∃ y', y = p ++ y' ∧ PlainBreaks x y' := by
  induction p generalizing y with
  | nil => exact ⟨y, rfl, h⟩
  | cons b p ih =>
    simp only [List.mem_cons, forall_eq_or_imp] at hp
    obtain ⟨y₁, rfl, h₁⟩ := cons_left h (by rintro rfl; exact absurd hp.1 (by decide))
    obtain ⟨y', rfl, h'⟩ := ih h₁ hp.2
    exact ⟨y', rfl, h'⟩

theorem append_right {p : List UInt8} (h : PlainBreaks x (p ++ y)) (hp : ∀ b ∈ p, 0x20 ≤ b) :
    ∃ x', x = p ++ x' ∧ PlainBreaks x' y := by
  induction p generalizing x with
  | nil => exact ⟨x, rfl, h⟩
  | cons b p ih =>
    simp only [List.mem_cons, forall_eq_or_imp] at hp
    obtain ⟨x₁, rfl, h₁⟩ := cons_right h (by rintro rfl; exact absurd hp.1 (by decide))
    obtain ⟨x', rfl, h'⟩ := ih h₁ hp.2
    exact ⟨x', rfl, h'⟩

theorem skipBlank (h : PlainBreaks x y) : PlainBreaks (Json.skipBlank x) (Json.skipBlank y) := by
  induction h with
  | ends hall =>
    refine .ends fun b hb => hall b (List.dropWhile_subset _ hb)
  | cons b h ih =>
    by_cases hb : isBlankByte b = true
    · simpa [Json.skipBlank, hb] using ih
    · simp only [Bool.not_eq_true] at hb
      rw [skipBlank_cons hb, skipBlank_cons hb]
      exact .cons b h
  | dropReturn h ih =>
    simpa [Json.skipBlank, isBlankByte] using ih


/-- The first bytes agree where they are printable; where one is not, neither is the other. -/
theorem head_cases (h : PlainBreaks x y) :
    (∃ b x' y', 0x20 ≤ b ∧ x = b :: x' ∧ y = b :: y' ∧ PlainBreaks x' y') ∨
      ((∀ b ∈ x.head?, b < 0x20) ∧ (∀ b ∈ y.head?, b < 0x20)) := by
  cases h with
  | ends hall =>
    refine .inr ⟨by simp, fun b hb => ?_⟩
    rw [hall b (List.mem_of_mem_head? hb)]
    decide
  | cons b h =>
    by_cases hb : 0x20 ≤ b
    · exact .inl ⟨b, _, _, hb, rfl, rfl, h⟩
    · simp only [List.head?_cons, Option.mem_def, Option.some.injEq, forall_eq']
      exact .inr ⟨UInt8.not_le.1 hb, UInt8.not_le.1 hb⟩
  | dropReturn h =>
    obtain ⟨y', rfl, -⟩ := cons_left h (by decide)
    exact .inr ⟨by simp, by simp⟩

/-- A run of bytes that takes no line break reads the same on both sides. -/
theorem takeWhile {p : UInt8 → Bool} (hlf : p 0x0a = false) (hcr : p 0x0d = false)
    (h : PlainBreaks x y) :
    x.takeWhile p = y.takeWhile p ∧ PlainBreaks (x.dropWhile p) (y.dropWhile p) := by
  induction h with
  | @ends y hall =>
    cases y with
    | nil => exact ⟨rfl, .ends (by simp)⟩
    | cons b y =>
      obtain rfl : b = 0x0a := hall b (by simp)
      simp only [List.takeWhile_nil, List.dropWhile_nil, List.takeWhile_cons, List.dropWhile_cons,
        hlf]
      exact ⟨rfl, .ends hall⟩
  | cons b h ih =>
    by_cases hb : p b = true
    · simpa [List.takeWhile_cons, List.dropWhile_cons, hb] using ih
    · simp only [Bool.not_eq_true] at hb
      simp only [List.takeWhile_cons, List.dropWhile_cons, hb]
      exact ⟨rfl, .cons b h⟩
  | @dropReturn x y h ih =>
    simp only [List.takeWhile_cons, List.dropWhile_cons, hcr, hlf, Bool.false_eq_true,
      ↓reduceIte] at ih ⊢
    -- the run is empty on the left, so it is empty on the right and the texts stay whole
    have hy : y.dropWhile p = y := by
      have := List.takeWhile_append_dropWhile (p := p) (l := y)
      rwa [← ih.1, List.nil_append] at this
    rw [hy] at ih ⊢
    exact ⟨ih.1, .dropReturn ih.2⟩

end PlainBreaks

/-- Both readings fail, or both give the same value with related rests. -/
def Agrees {α : Type} (o o' : Option (α × List UInt8)) : Prop :=
  Option.Rel (fun u v => u.1 = v.1 ∧ PlainBreaks u.2 v.2) o o'

namespace Agrees

variable {α β : Type} {o o' : Option (α × List UInt8)}

theorem bind (h : Agrees o o') {f : α × List UInt8 → Option (β × List UInt8)}
    (hf : ∀ a r r', PlainBreaks r r' → Agrees (f (a, r)) (f (a, r'))) :
    Agrees (o.bind f) (o'.bind f) := by
  cases h with
  | none => exact .none
  | @some u v huv =>
    obtain ⟨a, r⟩ := u
    obtain ⟨a', r'⟩ := v
    obtain ⟨ha, hr⟩ := huv
    dsimp only at ha
    subst ha
    exact hf a r r' hr

theorem map (h : Agrees o o') (g : α → β) :
    Agrees (o.map fun u => (g u.1, u.2)) (o'.map fun u => (g u.1, u.2)) := by
  cases h with
  | none => exact .none
  | some huv => exact .some ⟨congrArg g huv.1, huv.2⟩

theorem none_or_some (h : Agrees o o') :
    (o = none ∧ o' = none) ∨ ∃ a r r', o = some (a, r) ∧ o' = some (a, r') ∧ PlainBreaks r r' := by
  cases h with
  | none => exact .inl ⟨rfl, rfl⟩
  | @some u v huv => exact .inr ⟨u.1, u.2, v.2, rfl, by rw [huv.1], huv.2⟩

end Agrees

/-! ## The reader reads both alike -/

namespace PlainBreaks

variable {x y : List UInt8}

theorem numberSign (h : PlainBreaks x y) :
    (Json.numberSign x).1 = (Json.numberSign y).1 ∧
      PlainBreaks (Json.numberSign x).2 (Json.numberSign y).2 := by
  rcases head_cases h with ⟨b, x', y', -, rfl, rfl, h'⟩ | ⟨hx, hy⟩
  · by_cases hb : b = 0x2d
    · subst hb
      exact ⟨rfl, h'⟩
    · rw [numberSign_of_head (by simpa using hb), numberSign_of_head (by simpa using hb)]
      exact ⟨rfl, .cons b h'⟩
  · rw [numberSign_of_head fun b hb => ne_of_control (hx b hb) (by decide),
      numberSign_of_head fun b hb => ne_of_control (hy b hb) (by decide)]
    exact ⟨rfl, h⟩

theorem exponentSign (h : PlainBreaks x y) :
    (Json.exponentSign x).1 = (Json.exponentSign y).1 ∧
      PlainBreaks (Json.exponentSign x).2 (Json.exponentSign y).2 := by
  rcases head_cases h with ⟨b, x', y', -, rfl, rfl, h'⟩ | ⟨hx, hy⟩
  · by_cases hp : b = 0x2b
    · subst hp
      exact ⟨rfl, h'⟩
    by_cases hm : b = 0x2d
    · subst hm
      exact ⟨rfl, h'⟩
    rw [exponentSign_of_head (by simpa using ⟨hp, hm⟩),
      exponentSign_of_head (by simpa using ⟨hp, hm⟩)]
    exact ⟨rfl, .cons b h'⟩
  · rw [exponentSign_of_head fun b hb =>
        ⟨ne_of_control (hx b hb) (by decide), ne_of_control (hx b hb) (by decide)⟩,
      exponentSign_of_head fun b hb =>
        ⟨ne_of_control (hy b hb) (by decide), ne_of_control (hy b hb) (by decide)⟩]
    exact ⟨rfl, h⟩

theorem fraction (h : PlainBreaks x y) : Agrees (Json.fraction x) (Json.fraction y) := by
  rcases head_cases h with ⟨b, x', y', -, rfl, rfl, h'⟩ | ⟨hx, hy⟩
  · by_cases hb : b = 0x2e
    · subst hb
      obtain ⟨ht, hd⟩ := takeWhile (p := isDigitByte) (by decide) (by decide) h'
      simp only [Json.fraction, ht]
      split_ifs
      · exact .none
      · exact .some ⟨rfl, hd⟩
    · rw [fraction_of_head (by simpa using hb), fraction_of_head (by simpa using hb)]
      exact .some ⟨rfl, .cons b h'⟩
  · rw [fraction_of_head fun b hb => ne_of_control (hx b hb) (by decide),
      fraction_of_head fun b hb => ne_of_control (hy b hb) (by decide)]
    exact .some ⟨rfl, h⟩

theorem exponent (h : PlainBreaks x y) : Agrees (Json.exponent x) (Json.exponent y) := by
  rcases head_cases h with ⟨b, x', y', -, rfl, rfl, h'⟩ | ⟨hx, hy⟩
  · by_cases hb : (b == 0x65 || b == 0x45) = true
    · obtain ⟨hs, hsr⟩ := exponentSign h'
      obtain ⟨ht, hd⟩ := takeWhile (p := isDigitByte) (by decide) (by decide) hsr
      simp only [Json.exponent, hb, ↓reduceIte, hs, ht]
      split_ifs
      · exact .none
      · exact .some ⟨rfl, hd⟩
    · simp only [Json.exponent, hb, Bool.false_eq_true, ↓reduceIte]
      exact .some ⟨rfl, .cons b h'⟩
  · have hne : ∀ {z : List UInt8}, (∀ b ∈ z.head?, b < 0x20) →
        ∀ b ∈ z.head?, b ≠ 0x65 ∧ b ≠ 0x45 := fun hz b hb =>
      ⟨ne_of_control (hz b hb) (by decide), ne_of_control (hz b hb) (by decide)⟩
    rw [exponent_of_head (hne hx), exponent_of_head (hne hy)]
    exact .some ⟨rfl, h⟩

theorem numberToken (h : PlainBreaks x y) : Agrees (Json.numberToken x) (Json.numberToken y) := by
  obtain ⟨hs, hsr⟩ := numberSign h
  unfold Json.numberToken
  generalize Json.numberSign x = sx at hs hsr ⊢
  generalize Json.numberSign y = sy at hs hsr ⊢
  obtain ⟨sign, rx⟩ := sx
  obtain ⟨sign', ry⟩ := sy
  dsimp only at hs hsr ⊢
  subst hs
  obtain ⟨ht, hd⟩ := takeWhile (p := isDigitByte) (by decide) (by decide) hsr
  rw [ht]
  split_ifs
  · exact .none
  · refine (fraction hd).bind fun frac r r' hr => ?_
    exact (exponent hr).map fun ex =>
      String.ofList
        ((sign ++ ry.takeWhile isDigitByte ++ frac ++ ex).map fun b => Char.ofNat b.toNat)

theorem stringBody (h : PlainBreaks x y) (acc : List UInt8) :
    Agrees (Json.stringBody x acc) (Json.stringBody y acc) := by
  cases hx : Json.stringBody x acc with
  | some u =>
    obtain ⟨name, r⟩ := u
    obtain ⟨p, rfl, -, hp, hz⟩ := stringBody_split hx
    obtain ⟨y', rfl, h'⟩ := append_left h hp
    rw [hz]
    exact .some ⟨rfl, h'⟩
  | none =>
    cases hy : Json.stringBody y acc with
    | none => exact .none
    | some u =>
      -- a string read on the right was there on the left, and reads there too
      obtain ⟨name, r'⟩ := u
      obtain ⟨p, rfl, -, hp, hz⟩ := stringBody_split hy
      obtain ⟨x', rfl, -⟩ := append_right h hp
      rw [hz] at hx
      cases hx

theorem literal {w : List UInt8} (hw : ∀ b ∈ w, 0x20 ≤ b) (h : PlainBreaks x y) (j : Json) :
    Agrees ((Json.literal w x).map (j, ·)) ((Json.literal w y).map (j, ·)) := by
  cases hx : Json.literal w x with
  | some r =>
    obtain ⟨y', rfl, h'⟩ := append_left (literal_eq_some.1 hx ▸ h) hw
    rw [literal_eq_some.2 rfl]
    exact .some ⟨rfl, h'⟩
  | none =>
    cases hy : Json.literal w y with
    | none => exact .none
    | some r' =>
      obtain ⟨x', rfl, -⟩ := append_right (literal_eq_some.1 hy ▸ h) hw
      rw [literal_eq_some.2 rfl] at hx
      cases hx

/-- After blanks, both texts end or both go on with one byte. -/
theorem skipBlank_cases (h : PlainBreaks x y) :
    (Json.skipBlank x = [] ∧ Json.skipBlank y = []) ∨
      ∃ b x' y', isBlankByte b = false ∧ Json.skipBlank x = b :: x' ∧
        Json.skipBlank y = b :: y' ∧ PlainBreaks x' y' := by
  have hx := @isBlankByte_of_skipBlank x
  have hy := @isBlankByte_of_skipBlank y
  have h₁ := h.skipBlank
  generalize Json.skipBlank x = x₁ at hx hy h₁ ⊢
  generalize Json.skipBlank y = y₁ at hx hy h₁ ⊢
  cases h₁ with
  | @ends y₁ hall =>
    cases y₁ with
    | nil => exact .inl ⟨rfl, rfl⟩
    | cons b y₁ =>
      have := hy rfl
      rw [hall b (by simp)] at this
      cases this
  | cons b h' => exact .inr ⟨b, _, _, hx rfl, rfl, rfl, h'⟩
  | dropReturn => cases hx rfl


end PlainBreaks

/-- At `fuel`, the reader's stages read texts with plain line ends alike. -/
def ReadsAlike (fuel : Nat) : Prop :=
  (∀ {x y}, PlainBreaks x y → Agrees (value fuel x) (value fuel y)) ∧
    (∀ {x y} acc, PlainBreaks x y → Agrees (items fuel x acc) (items fuel y acc)) ∧
    (∀ {x y} acc, PlainBreaks x y → Agrees (members fuel x acc) (members fuel y acc))

namespace ReadsAlike

variable {fuel : Nat} {x y : List UInt8}

theorem value_succ (ih : ReadsAlike fuel) (h : PlainBreaks x y) :
    Agrees (value (fuel + 1) x) (value (fuel + 1) y) := by
  rw [value.eq_2, value.eq_2]
  rcases h.skipBlank_cases with ⟨hx, hy⟩ | ⟨b, x', y', -, hx, hy, h'⟩
  · rw [hx, hy]
    exact .none
  rw [hx, hy]
  dsimp only
  -- both texts go on with the same byte, so the same branch reads them
  split_ifs
  · exact ih.2.2 [] h'.skipBlank
  · exact ih.2.1 [] h'.skipBlank
  · exact (h'.stringBody []).map Json.string
  · exact PlainBreaks.literal (by simp) h' _
  · exact PlainBreaks.literal (by simp) h' _
  · exact PlainBreaks.literal (by simp) h' _
  · exact (PlainBreaks.cons b h').numberToken.map Json.number

theorem items_succ (ih : ReadsAlike fuel) (acc : List Json) (h : PlainBreaks x y) :
    Agrees (items (fuel + 1) x acc) (items (fuel + 1) y acc) := by
  by_cases hc : ∃ x', x = 0x5d :: x' ∧ acc = []
  · obtain ⟨x', rfl, rfl⟩ := hc
    obtain ⟨y', rfl, h'⟩ := h.cons_left (by decide)
    rw [items.eq_2, items.eq_2]
    exact .some ⟨rfl, h'⟩
  have hx : ∀ rest, x = 0x5d :: rest → acc = [] → False := fun rest hr ha =>
    hc ⟨rest, hr, ha⟩
  have hy : ∀ rest, y = 0x5d :: rest → acc = [] → False := fun rest hr ha => by
    subst hr
    obtain ⟨x', rfl, -⟩ := h.cons_right (by decide)
    exact hx x' rfl ha
  rw [items.eq_3 _ _ _ hx, items.eq_3 _ _ _ hy]
  rcases (ih.1 h).none_or_some with ⟨hvx, hvy⟩ | ⟨a, r, r', hvx, hvy, hr⟩
  · rw [hvx, hvy]
    exact .none
  rw [hvx, hvy]
  dsimp only
  -- after the item: a comma and more items, or the closing bracket
  rcases hr.skipBlank_cases with ⟨hx', hy'⟩ | ⟨c, x'', y'', -, hx', hy', h''⟩
  · rw [hx', hy']
    exact .none
  rw [hx', hy']
  by_cases hc : c = 0x2c
  · subst hc
    exact ih.2.1 _ h''.skipBlank
  by_cases hc' : c = 0x5d
  · subst hc'
    exact .some ⟨rfl, h''⟩
  split
  · rename_i heq
    exact absurd (List.cons.inj heq).1 hc
  · rename_i heq
    exact absurd (List.cons.inj heq).1 hc'
  split
  · rename_i heq
    exact absurd (List.cons.inj heq).1 hc
  · rename_i heq
    exact absurd (List.cons.inj heq).1 hc'
  exact .none

theorem members_succ (ih : ReadsAlike fuel) (acc : List (List UInt8 × Json))
    (h : PlainBreaks x y) : Agrees (members (fuel + 1) x acc) (members (fuel + 1) y acc) := by
  by_cases hc : ∃ x', x = 0x7d :: x' ∧ acc = []
  · obtain ⟨x', rfl, rfl⟩ := hc
    obtain ⟨y', rfl, h'⟩ := h.cons_left (by decide)
    rw [members.eq_2, members.eq_2]
    exact .some ⟨rfl, h'⟩
  by_cases hq : ∃ x', x = 0x22 :: x'
  · obtain ⟨x', rfl⟩ := hq
    obtain ⟨y', rfl, h'⟩ := h.cons_left (by decide)
    rw [members.eq_3, members.eq_3]
    rcases (h'.stringBody []).none_or_some with ⟨hsx, hsy⟩ | ⟨name, r, r', hsx, hsy, hr⟩
    · rw [hsx, hsy]
      exact .none
    rw [hsx, hsy]
    dsimp only
    -- after the name: a colon, the value, then a comma and more members or the closing brace
    rcases hr.skipBlank_cases with ⟨hx', hy'⟩ | ⟨c, x'', y'', -, hx', hy', h''⟩
    · rw [hx', hy']
      exact .none
    rw [hx', hy']
    by_cases hcol : c = 0x3a
    · subst hcol
      simp only
      rcases (ih.1 h'').none_or_some with ⟨hvx, hvy⟩ | ⟨a, z, z', hvx, hvy, hz⟩
      · rw [hvx, hvy]
        exact .none
      rw [hvx, hvy]
      dsimp only
      rcases hz.skipBlank_cases with ⟨hx', hy'⟩ | ⟨d, w, w', -, hx', hy', hw⟩
      · rw [hx', hy']
        exact .none
      rw [hx', hy']
      by_cases hd : d = 0x2c
      · subst hd
        exact ih.2.2 _ hw.skipBlank
      by_cases hd' : d = 0x7d
      · subst hd'
        exact .some ⟨rfl, hw⟩
      split
      · rename_i heq
        exact absurd (List.cons.inj heq).1 hd
      · rename_i heq
        exact absurd (List.cons.inj heq).1 hd'
      split
      · rename_i heq
        exact absurd (List.cons.inj heq).1 hd
      · rename_i heq
        exact absurd (List.cons.inj heq).1 hd'
      exact .none
    split
    · rename_i heq
      exact absurd (List.cons.inj heq).1 hcol
    split
    · rename_i heq
      exact absurd (List.cons.inj heq).1 hcol
    exact .none
  -- neither an empty object nor a member name: both fail
  have hx₁ : ∀ rest, x = 0x22 :: rest → False := fun rest hr => hq ⟨rest, hr⟩
  have hx₂ : ∀ rest, x = 0x7d :: rest → acc = [] → False := fun rest hr ha =>
    hc ⟨rest, hr, ha⟩
  have hy₁ : ∀ rest, y = 0x22 :: rest → False := fun rest hr => by
    subst hr
    obtain ⟨x', rfl, -⟩ := h.cons_right (by decide)
    exact hx₁ x' rfl
  have hy₂ : ∀ rest, y = 0x7d :: rest → acc = [] → False := fun rest hr ha => by
    subst hr
    obtain ⟨x', rfl, -⟩ := h.cons_right (by decide)
    exact hx₂ x' rfl ha
  rw [members.eq_4 _ _ _ hx₁ hx₂, members.eq_4 _ _ _ hy₁ hy₂]
  exact .none

end ReadsAlike

/-- The reader, at any fuel, reads texts with plain line ends alike. -/
theorem readsAlike : ∀ fuel, ReadsAlike fuel
  | 0 => ⟨fun _ => .none, fun _ _ => .none, fun _ _ => .none⟩
  | fuel + 1 => ⟨(readsAlike fuel).value_succ, fun acc h => (readsAlike fuel).items_succ acc h,
      fun acc h => (readsAlike fuel).members_succ acc h⟩



/-- **Reading ignores plain line ends.** A document reads the same after the carriage return
of some `CR LF` pairs is dropped and line feeds are added at its end. -/
theorem read?_plainBreaks {x y : List UInt8} (h : PlainBreaks x y) : read? y = read? x := by
  -- both sides read with one fuel that is enough for either text
  have hx : value (4 * x.length + 8) x = value (4 * x.length + 4 * y.length + 8) x :=
    (value_fuel_eq (by omega) (by omega)).symm
  have hy : value (4 * y.length + 8) y = value (4 * x.length + 4 * y.length + 8) y :=
    (value_fuel_eq (by omega) (by omega)).symm
  unfold read?
  rw [hx, hy]
  rcases ((readsAlike _).1 h).none_or_some with ⟨hvx, hvy⟩ | ⟨j, r, r', hvx, hvy, hr⟩
  · rw [hvx, hvy]
  rw [hvx, hvy]
  dsimp only
  -- both rests are blanks only, or neither is
  rcases PlainBreaks.skipBlank_cases hr with ⟨h₁, h₂⟩ | ⟨b, z, z', -, h₁, h₂, -⟩
  · simp [h₁, h₂]
  · simp [h₁, h₂]

end Json

end Telemetry
