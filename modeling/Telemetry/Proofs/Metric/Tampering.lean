import Mathlib
import Telemetry.Proofs.Metric.Signature

/-
  What a signature check tells apart.

  A record's hash signs the message `id:type:canonical`. Type tags and canonical texts hold
  no colon (`Value.colon_not_mem_canonical`), so a message splits back at its last two
  colons whatever colons the id holds: two messages agree exactly when their ids, kinds and
  canonical texts do (`Value.canonicalMessage_eq_iff`).

  `Signature.verify_iff_of_decode`: a record whose trimmed hash reads as a tag passes the
  check exactly when its value reads and the tag is the HMAC of that value's message. Hence
  `Signature.verify_iff_canonical`: take the record a signer made for a value `m`, and any
  record `r'` whose hash reads as the same tag. So long as HMAC gives the two messages
  compared one tag only when they are one message (`Signature.Distinguishes`), `r'` passes
  exactly when it names the same id and kind and its value has `m`'s canonical text. A
  counter's text is its number, so every change to a counter is caught
  (`Signature.verify_counter_iff`); a gauge's text keeps six decimals, so gauges that round
  alike are not told apart.
-/

namespace Telemetry

/-- A list splits at the last occurrence of a separator in one way only. -/
theorem append_cons_inj_of_not_mem_left {α : Type} {a : α} :
    ∀ {x₁ x₂ z₁ z₂ : List α}, a ∉ x₁ → a ∉ x₂ → x₁ ++ a :: z₁ = x₂ ++ a :: z₂ →
      x₁ = x₂ ∧ z₁ = z₂ := by
  intro x₁
  induction x₁ with
  | nil =>
    intro x₂ z₁ z₂ _ h₂ h
    cases x₂ with
    | nil => simpa using h
    | cons b x₂ =>
      -- the separator would stand first in `x₂`
      simp only [List.nil_append, List.cons_append, List.cons.injEq] at h
      exact absurd (h.1 ▸ List.mem_cons_self) h₂
  | cons b x₁ ih =>
    intro x₂ z₁ z₂ h₁ h₂ h
    cases x₂ with
    | nil =>
      simp only [List.nil_append, List.cons_append, List.cons.injEq] at h
      exact absurd (h.1 ▸ List.mem_cons_self) h₁
    | cons c x₂ =>
      simp only [List.cons_append, List.cons.injEq] at h
      obtain ⟨rfl, h⟩ := h
      obtain ⟨hx, hz⟩ := ih (fun hm => h₁ (List.mem_cons_of_mem b hm))
        (fun hm => h₂ (List.mem_cons_of_mem b hm)) h
      exact ⟨hx ▸ rfl, hz⟩

/-- A list splits at the last occurrence of a separator in one way only. -/
theorem append_cons_inj_of_not_mem_right {α : Type} {a : α} {x₁ x₂ z₁ z₂ : List α}
    (h₁ : a ∉ z₁) (h₂ : a ∉ z₂) (h : x₁ ++ a :: z₁ = x₂ ++ a :: z₂) : x₁ = x₂ ∧ z₁ = z₂ := by
  have hr := congrArg List.reverse h
  simp only [List.reverse_append, List.reverse_cons, List.append_assoc, List.singleton_append]
    at hr
  obtain ⟨hz, hx⟩ := append_cons_inj_of_not_mem_left (by simpa using h₁) (by simpa using h₂) hr
  exact ⟨List.reverse_inj.1 hx, List.reverse_inj.1 hz⟩

/-! ## Canonical messages -/

theorem colon_not_mem_toDigits (n : Nat) : ':' ∉ Nat.toDigits 10 n := fun h => by
  have hd := Nat.isDigit_of_mem_toDigits (by omega) (by omega) h
  revert hd
  decide

theorem colon_not_mem_natText (n : Nat) : ':' ∉ (toString n).toList := by
  simpa [toString, Nat.toList_repr] using colon_not_mem_toDigits n

theorem colon_not_mem_intText (i : Int) : ':' ∉ (toString i).toList := by
  cases i with
  | ofNat n => simpa [toString, Int.repr] using colon_not_mem_natText n
  | negSucc n =>
    simpa [toString, Int.repr, String.toList_append] using colon_not_mem_natText (n + 1)

theorem Binary64.colon_not_mem_fixed (places : Nat) (x : Binary64) :
    ':' ∉ (Binary64.fixed places x).toList := by
  unfold Binary64.fixed
  split
  · decide
  · split <;> decide
  · -- a sign, the whole part, then a point, zeros and the fraction's digits
    simp only [String.toList_append, List.mem_append, not_or]
    refine ⟨by split <;> decide, colon_not_mem_natText _, ?_⟩
    split
    · decide
    · simp [String.toList_append, Digits.zeros, colon_not_mem_toDigits]

theorem Kind.colon_not_mem_name (k : Kind) : ':' ∉ k.name.toList := by
  cases k <;> decide

/-- Only the exact tag of a kind reads as that kind. -/
theorem Kind.parse_eq_ok_iff {tag : String} {k : Kind} : Kind.parse tag = .ok k ↔ tag = k.name := by
  unfold Kind.parse
  by_cases hg : tag = "gauge"
  · cases k <;> simp [hg, Kind.name]
  · by_cases hc : tag = "counter" <;> cases k <;> simp [hg, hc, Kind.name]

theorem Kind.name_injective : Function.Injective Kind.name := by
  intro a b h
  cases a <;> cases b <;> first | rfl | exact absurd h (by decide)

namespace Value

/-- Canonical texts hold no colon: a gauge's is its fixed decimals, a counter's its number. -/
theorem colon_not_mem_canonical (v : Value) : ':' ∉ v.canonical.toList := by
  cases v with
  | gauge x => exact Binary64.colon_not_mem_fixed 6 x
  | counter n => exact colon_not_mem_intText n.toInt

theorem canonicalMessage_toList (v : Value) (n : String) :
    (v.canonicalMessage n).toList =
      (n.toList ++ ':' :: v.kind.name.toList) ++ ':' :: v.canonical.toList := by
  simp [canonicalMessage, String.toList_append]

/-- **Messages are unambiguous.** Two canonical messages agree exactly when their names,
kinds and canonical texts do, though names may hold colons. -/
theorem canonicalMessage_eq_iff {v w : Value} {n n' : String} :
    v.canonicalMessage n = w.canonicalMessage n' ↔
      n = n' ∧ v.kind = w.kind ∧ v.canonical = w.canonical := by
  constructor
  · intro h
    have hl := congrArg String.toList h
    rw [canonicalMessage_toList, canonicalMessage_toList] at hl
    -- the last colon ends the type tag, the one before it the name
    obtain ⟨hl, hc⟩ := append_cons_inj_of_not_mem_right (colon_not_mem_canonical v)
      (colon_not_mem_canonical w) hl
    obtain ⟨hn, hk⟩ := append_cons_inj_of_not_mem_right (Kind.colon_not_mem_name v.kind)
      (Kind.colon_not_mem_name w.kind) hl
    exact ⟨String.toList_inj.1 hn, Kind.name_injective (String.toList_inj.1 hk),
      String.toList_inj.1 hc⟩
  · rintro ⟨rfl, hk, hc⟩
    simp [canonicalMessage, hk, hc]

/-- A counter's canonical text is its number. -/
theorem canonical_counter_inj {a b : Int64} :
    (counter a).canonical = (counter b).canonical ↔ a = b := by
  constructor
  · intro h
    have hi : a.toInt = b.toInt := by
      simpa [canonical] using congrArg String.toInt? h
    exact Int64.toInt_inj.1 hi
  · rintro rfl
    rfl

end Value

/-! ## Reading a record's value -/

namespace Record

variable {r : Record}

theorem toValue_eq_ok_gauge {x : Binary64} :
    r.toValue = .ok (.gauge x) ↔ r.type = "gauge" ∧ r.value = some x ∧ x.isFinite = true := by
  rw [toValue, Except.bind_eq_ok]
  constructor
  · rintro ⟨k, hk, h⟩
    cases k with
    | gauge =>
      refine ⟨Kind.parse_eq_ok_iff.1 hk, ?_⟩
      revert h
      cases r.value with
      | none => simp [throw, throwThe, MonadExceptOf.throw]
      | some y =>
        by_cases hy : y.isFinite = true
        · simp only [hy]
          rintro ⟨⟩
          exact ⟨rfl, hy⟩
        · simp [hy, throw, throwThe, MonadExceptOf.throw]
    | counter =>
      revert h
      cases r.delta <;> simp [throw, throwThe, MonadExceptOf.throw]
  · rintro ⟨ht, hv, hx⟩
    exact ⟨.gauge, Kind.parse_eq_ok_iff.2 ht, by simp [hv, hx]⟩

theorem toValue_eq_ok_counter {d : Int64} :
    r.toValue = .ok (.counter d) ↔ r.type = "counter" ∧ r.delta = some d := by
  rw [toValue, Except.bind_eq_ok]
  constructor
  · rintro ⟨k, hk, h⟩
    cases k with
    | gauge =>
      revert h
      cases r.value with
      | none => simp [throw, throwThe, MonadExceptOf.throw]
      | some y =>
        by_cases hy : y.isFinite = true <;> simp [hy, throw, throwThe, MonadExceptOf.throw]
    | counter =>
      refine ⟨Kind.parse_eq_ok_iff.1 hk, ?_⟩
      revert h
      cases r.delta <;> simp [throw, throwThe, MonadExceptOf.throw]
  · rintro ⟨ht, hd⟩
    exact ⟨.counter, Kind.parse_eq_ok_iff.2 ht, by simp [hd]⟩

/-- A record reads as a value only under that value's type tag. -/
theorem type_of_toValue {v : Value} (h : r.toValue = .ok v) : r.type = v.kind.name := by
  cases v with
  | gauge x => exact (toValue_eq_ok_gauge.1 h).1
  | counter d => exact (toValue_eq_ok_counter.1 h).1

end Record

/-! ## The check -/

theorem Signer.sign_new (s message : String) :
    (Signer.new (some s)).sign message = Signature.sign message s := by
  by_cases hs : s.isEmpty = true
  · -- the empty secret is no secret, and signing without one uses the empty key
    rw [String.isEmpty_iff] at hs
    subst hs
    rfl
  · simp [Signer.new, Signer.sign, Option.filter, hs]

/-- A signed record's hash has no blank to trim. -/
theorem Signer.trim_hash_toRecord (signer : Signer) (v : Value) (n : String) :
    Text.trim (v.toRecord n signer).hash = (v.toRecord n signer).hash := by
  rw [Signer.hash_toRecord, Signer.sign, Signature.sign, Hex.trim_encode]

namespace Signature

/-- HMAC-SHA-256 under `secret` gives the messages `a` and `b` one tag only when they are one
message. -/
def Distinguishes (secret a b : String) : Prop :=
  Sha256.hmac (Utf8.encode secret) (Utf8.encode a) =
    Sha256.hmac (Utf8.encode secret) (Utf8.encode b) → a = b

/-- A record whose trimmed hash reads as a tag passes exactly when its value reads and the tag
is the HMAC of that value's message. -/
theorem verify_iff_of_decode {r : Record} {secret : String} {tag : List UInt8}
    (hd : Hex.decode? (Text.trim r.hash) = some tag) (htag : tag ≠ []) :
    verify r secret = true ↔ ∃ v, r.toValue = .ok v ∧
      Sha256.hmac (Utf8.encode secret) (Utf8.encode (v.canonicalMessage r.id)) = tag := by
  -- an empty hash trims to nothing, which reads as no bytes
  have hne : r.hash.isEmpty = false := by
    cases h : r.hash.isEmpty with
    | false => rfl
    | true =>
      rw [String.isEmpty_iff.1 h] at hd
      exact absurd (Option.some.inj hd).symm htag
  unfold verify
  rw [hne, if_neg Bool.false_ne_true]
  cases hv : r.toValue with
  | error e => simp only [reduceCtorEq, false_and, exists_false, Bool.false_eq_true]
  | ok v =>
    simp only [hd, beq_iff_eq, Except.ok.injEq, exists_eq_left']
    exact eq_comm

/-- The record a signer with secret `s` makes for `m` carries the hex HMAC of `m`'s message
under `s`, the empty secret included; a record whose hash reads as the same bytes passes
exactly when its own message has that HMAC. -/
theorem verify_iff_same_tag {s id : String} {m : Value} {r' : Record}
    (hhash : Hex.decode? (Text.trim r'.hash) = Hex.decode? (m.toRecord id (Signer.new (some s))).hash) :
    verify r' s = true ↔ ∃ v, r'.toValue = .ok v ∧
      Sha256.hmac (Utf8.encode s) (Utf8.encode (v.canonicalMessage r'.id)) =
        Sha256.hmac (Utf8.encode s) (Utf8.encode (m.canonicalMessage id)) := by
  have htag : Hex.decode? (Text.trim r'.hash) =
      some (Sha256.hmac (Utf8.encode s) (Utf8.encode (m.canonicalMessage id))) := by
    rw [hhash, Signer.hash_toRecord, Signer.sign_new, sign, Hex.decode?_encode]
  have hne : Sha256.hmac (Utf8.encode s) (Utf8.encode (m.canonicalMessage id)) ≠ [] := by
    rw [← List.length_pos_iff, Sha256.length_hmac]
    decide
  exact verify_iff_of_decode htag hne

/-- **What the check tells apart.** Let `r` be the record a signer with secret `s` makes for
a value `m` under `id`, and `r'` a record whose trimmed hash reads, in either case, as the same
bytes as `r`'s. If HMAC under `s` gives `r'`'s message and `m`'s one tag only when they are
one message, `r'` passes the check exactly when it has the id and the type tag of `m` and a
value with `m`'s canonical text. -/
theorem verify_iff_canonical {s id : String} {m : Value} {r' : Record}
    (hhash : Hex.decode? (Text.trim r'.hash) = Hex.decode? (m.toRecord id (Signer.new (some s))).hash)
    (hcoll : ∀ v, r'.toValue = .ok v →
      Distinguishes s (v.canonicalMessage r'.id) (m.canonicalMessage id)) :
    verify r' s = true ↔
      r'.id = id ∧ r'.type = m.kind.name ∧ ∃ m', r'.toValue = .ok m' ∧ m'.canonical = m.canonical := by
  rw [verify_iff_same_tag hhash]
  constructor
  · rintro ⟨v, hv, heq⟩
    obtain ⟨hid, hk, hc⟩ := Value.canonicalMessage_eq_iff.1 (hcoll v hv heq)
    exact ⟨hid, by rw [Record.type_of_toValue hv, hk], v, hv, hc⟩
  · rintro ⟨hid, htype, v, hv, hc⟩
    have hk : v.kind = m.kind := Kind.name_injective ((Record.type_of_toValue hv).symm.trans htype)
    exact ⟨v, hv, by rw [Value.canonicalMessage_eq_iff.2 ⟨hid, hk, hc⟩]⟩

/-- The record of the gauge `0.1` signed with `k3y` still passes with `0.1000001`
(`0x3FB9999B4718C345`) in its value: the two agree to six decimals. -/
theorem verify_rounded_gauge :
    verify
      { id := "Alloc", type := "gauge", value := some ⟨0x3FB9999B4718C345⟩
        hash := ((Value.gauge ⟨0x3FB999999999999A⟩).toRecord "Alloc" (Signer.new (some "k3y"))).hash }
      "k3y" = true := by
  have hc : (Value.gauge ⟨0x3FB9999B4718C345⟩).canonical =
      (Value.gauge ⟨0x3FB999999999999A⟩).canonical := by decide
  have hv : Record.toValue
      { id := "Alloc", type := "gauge", value := some ⟨0x3FB9999B4718C345⟩
        hash := ((Value.gauge ⟨0x3FB999999999999A⟩).toRecord "Alloc" (Signer.new (some "k3y"))).hash } =
      .ok (.gauge ⟨0x3FB9999B4718C345⟩) :=
    Record.toValue_eq_ok_gauge.2 ⟨rfl, rfl, by decide⟩
  refine (verify_iff_canonical (s := "k3y") (m := .gauge ⟨0x3FB999999999999A⟩) ?_ ?_).2
    ⟨rfl, rfl, _, hv, hc⟩
  · exact congrArg Hex.decode? (Signer.trim_hash_toRecord _ _ _)
  intro v hv'
  rw [hv] at hv'
  cases hv'
  exact fun _ => Value.canonicalMessage_eq_iff.2 ⟨rfl, rfl, hc⟩

/-- **Every change to a counter is caught.** Against the record of a counter `d`, a record
whose hash reads as the same bytes passes exactly when it keeps the id, the type and the
delta, if HMAC tells its message from the counter's. -/
theorem verify_counter_iff {s id : String} {d : Int64} {r' : Record}
    (hhash : Hex.decode? (Text.trim r'.hash) =
      Hex.decode? ((Value.counter d).toRecord id (Signer.new (some s))).hash)
    (hcoll : ∀ v, r'.toValue = .ok v →
      Distinguishes s (v.canonicalMessage r'.id) ((Value.counter d).canonicalMessage id)) :
    verify r' s = true ↔ r'.id = id ∧ r'.type = "counter" ∧ r'.delta = some d := by
  rw [verify_iff_same_tag hhash]
  constructor
  · rintro ⟨v, hv, heq⟩
    obtain ⟨hid, hk, hc⟩ := Value.canonicalMessage_eq_iff.1 (hcoll v hv heq)
    cases v with
    | gauge x => cases hk
    | counter e =>
      have hd := (Record.toValue_eq_ok_counter.1 hv)
      exact ⟨hid, hd.1, Value.canonical_counter_inj.1 hc ▸ hd.2⟩
  · rintro ⟨rfl, htype, hd⟩
    exact ⟨.counter d, Record.toValue_eq_ok_counter.2 ⟨htype, hd⟩, rfl⟩

end Signature

end Telemetry
