import Mathlib.Data.List.Forall2

/-
  Reading `Except` computations backwards.

  A bind that succeeded had a first step that succeeded; a bind that failed failed in its
  first step or in its second. `mapM_eq_ok` and `mapM_eq_error` say the same of a whole
  `List.mapM`: it succeeds when every element does, and otherwise it fails with the error of
  the first element that fails, every element before it having succeeded.
-/

namespace Telemetry

namespace Except

variable {ε α β : Type}

@[simp] theorem bind_eq_ok {x : Except ε α} {f : α → Except ε β} {b : β} :
    x >>= f = .ok b ↔ ∃ a, x = .ok a ∧ f a = .ok b := by
  cases x <;> simp [bind, Except.bind]

@[simp] theorem bind_eq_error {x : Except ε α} {f : α → Except ε β} {e : ε} :
    x >>= f = .error e ↔ x = .error e ∨ ∃ a, x = .ok a ∧ f a = .error e := by
  cases x <;> simp [bind, Except.bind]

@[simp] theorem map_eq_ok {x : Except ε α} {g : α → β} {b : β} :
    g <$> x = .ok b ↔ ∃ a, x = .ok a ∧ g a = b := by
  cases x <;> simp [Functor.map, Except.map]

@[simp] theorem map_eq_error {x : Except ε α} {g : α → β} {e : ε} :
    g <$> x = .error e ↔ x = .error e := by
  cases x <;> simp [Functor.map, Except.map]

@[simp] theorem pure_eq_ok {a b : α} : (pure a : Except ε α) = .ok b ↔ a = b := by
  simp [pure, Except.pure]

@[simp] theorem pure_ne_error {a : α} {e : ε} : (pure a : Except ε α) ≠ .error e := by
  simp [pure, Except.pure]

/-- A check that answers nothing succeeded when it answered `()`. -/
@[simp] theorem exists_eq_ok_unit {x : Except ε Unit} : (∃ u, x = .ok u) ↔ x = .ok () :=
  ⟨fun ⟨_, h⟩ => h, fun h => ⟨(), h⟩⟩

/-- A `mapM` succeeds with the results of its elements, each in its place. -/
theorem mapM_eq_ok {f : α → Except ε β} {l : List α} {bs : List β} :
    l.mapM f = .ok bs ↔ List.Forall₂ (fun a b => f a = .ok b) l bs := by
  induction l generalizing bs with
  | nil => cases bs <;> simp
  | cons a l ih =>
    rw [List.mapM_cons]
    cases bs <;> simp [← ih]

/-- A `mapM` succeeds when each element does, each result related to its element as that
element's own result is. -/
theorem mapM_eq_ok_of_forall {f : α → Except ε β} {R : α → β → Prop} {l : List α}
    (h : ∀ a ∈ l, ∃ b, f a = .ok b ∧ R a b) : ∃ bs, l.mapM f = .ok bs ∧ List.Forall₂ R l bs := by
  induction l with
  | nil => exact ⟨[], rfl, .nil⟩
  | cons a l ih =>
    obtain ⟨b, hb, hab⟩ := h a (by simp)
    obtain ⟨bs, hbs, hR⟩ := ih fun x hx => h x (by simp [hx])
    refine ⟨b :: bs, ?_, .cons hab hR⟩
    rw [List.mapM_cons, hb, hbs]
    rfl

@[simp] theorem mapError_eq_ok {ε' : Type} {x : Except ε α} {g : ε → ε'} {a : α} :
    x.mapError g = .ok a ↔ x = .ok a := by
  cases x <;> simp [Except.mapError]

theorem mapError_eq_error {ε' : Type} {x : Except ε α} {g : ε → ε'} {e : ε'} :
    x.mapError g = .error e ↔ ∃ f, x = .error f ∧ e = g f := by
  cases x <;> simp [Except.mapError, eq_comm]

/-- A `mapM` fails with the error of its first failing element. -/
theorem mapM_eq_error {f : α → Except ε β} {e : ε} : ∀ {l : List α},
    l.mapM f = .error e ↔
      ∃ pre a post, l = pre ++ a :: post ∧ (∀ x ∈ pre, ∃ b, f x = .ok b) ∧ f a = .error e
  | [] => by simp [pure, Except.pure]
  | a :: l => by
    rw [List.mapM_cons]
    simp only [bind_eq_error, pure_ne_error, and_false, exists_false, or_false, mapM_eq_error]
    constructor
    · rintro (ha | ⟨b, hb, pre, x, post, rfl, hpre, hx⟩)
      · exact ⟨[], a, l, rfl, by simp, ha⟩
      · refine ⟨a :: pre, x, post, rfl, ?_, hx⟩
        intro y hy
        rcases List.mem_cons.1 hy with rfl | hy
        · exact ⟨b, hb⟩
        · exact hpre y hy
    · rintro ⟨pre, x, post, hl, hpre, hx⟩
      cases pre with
      | nil =>
        simp only [List.nil_append, List.cons.injEq] at hl
        obtain ⟨rfl, rfl⟩ := hl
        exact .inl hx
      | cons y pre =>
        simp only [List.cons_append, List.cons.injEq] at hl
        obtain ⟨rfl, rfl⟩ := hl
        obtain ⟨b, hb⟩ := hpre a (by simp)
        exact .inr ⟨b, hb, pre, x, post, rfl, fun z hz => hpre z (by simp [hz]), hx⟩

/-- A `mapM` that succeeds succeeded on each element. -/
theorem exists_eq_ok_of_mapM {f : α → Except ε β} {l : List α}
    {bs : List β} (h : l.mapM f = .ok bs) {a : α} (ha : a ∈ l) : ∃ b, f a = .ok b := by
  induction mapM_eq_ok.1 h with
  | nil => simp at ha
  | @cons x b l bs hx _ ih =>
    rcases List.mem_cons.1 ha with rfl | ha
    · exact ⟨b, hx⟩
    · exact ih (mapM_eq_ok.2 ‹_›) ha

/-- A `mapM` fails when it fails on some element. -/
theorem mapM_eq_error_of_mem {f : α → Except ε β} {l : List α} {a : α}
    {e : ε} (ha : a ∈ l) (hf : f a = .error e) : ∃ err, l.mapM f = .error err := by
  cases h : l.mapM f with
  | error err => exact ⟨err, rfl⟩
  | ok bs =>
    obtain ⟨b, hb⟩ := exists_eq_ok_of_mapM h ha
    rw [hf] at hb
    cases hb

end Except

end Telemetry
