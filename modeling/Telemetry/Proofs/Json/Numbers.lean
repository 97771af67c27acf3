import Telemetry.Json.Reader
import Telemetry.Json.Decode
import Telemetry.Proofs.Text.Utf8

/-
  Number tokens.

  The lexer reads a number in stages: the sign, a run of digits, the fraction and the
  exponent, each ending where its bytes end. So a token ends at the first byte that none of
  its stages takes (`EndsNumber`: no digit, no point, no exponent letter), and bytes after
  such a byte are never looked at: a token read on its own reads the same with anything
  behind it (`numberToken_append`). The decimal text of an integer is such a token
  (`numberToken_int`), and the typed reading of an integer in the 64-bit range gives the
  integer back (`asI64?_toInt`).
-/

namespace Telemetry

namespace Json

/-- A byte that no stage of a number token takes. -/
def EndsNumber (b : UInt8) : Prop := isDigitByte b = false ∧ b ≠ 0x2e ∧ b ≠ 0x65 ∧ b ≠ 0x45

/-- What follows ends a number token: it is empty or starts with a byte that ends one. -/
def EndsToken (ext : List UInt8) : Prop := ∀ b ∈ ext.head?, EndsNumber b

/-! ## The stages keep their bytes when more follow -/

/-- A run stops at the first byte outside it: appending after the run's end changes nothing
but the rest, provided what is appended cannot extend a run that reached the end. -/
theorem run_append {α : Type} {p : α → Bool} {l ext : List α}
    (h : l.dropWhile p = [] → ∀ x ∈ ext.head?, p x = false) :
    (l ++ ext).takeWhile p = l.takeWhile p ∧
      (l ++ ext).dropWhile p = l.dropWhile p ++ ext := by
  have hlen : (l.takeWhile p).length = l.length ↔ l.dropWhile p = [] := by
    have := congrArg List.length (List.takeWhile_append_dropWhile (p := p) (l := l))
    rw [List.length_append] at this
    rw [← List.length_eq_zero_iff]
    omega
  have hext : l.dropWhile p = [] → ext.takeWhile p = [] ∧ ext.dropWhile p = ext := by
    intro hd
    cases ext with
    | nil => exact ⟨rfl, rfl⟩
    | cons x e =>
      have hx := h hd x rfl
      simp [hx]
  rw [List.takeWhile_append, List.dropWhile_append]
  by_cases hd : l.dropWhile p = []
  · obtain ⟨ht, hdr⟩ := hext hd
    have hall : l.takeWhile p = l := by
      have := List.takeWhile_append_dropWhile (p := p) (l := l)
      rwa [hd, List.append_nil] at this
    rw [if_pos (hlen.2 hd), if_pos (by simp [hd]), ht, hdr, hd, hall, List.append_nil,
      List.nil_append]
    exact ⟨rfl, rfl⟩
  · rw [if_neg (fun h' => hd (hlen.1 h')), if_neg (by simpa using hd)]
    exact ⟨rfl, rfl⟩

theorem numberSign_append {l : List UInt8} (hl : l ≠ []) (ext : List UInt8) :
    numberSign (l ++ ext) = ((numberSign l).1, (numberSign l).2 ++ ext) := by
  cases l with
  | nil => exact absurd rfl hl
  | cons b l =>
    by_cases hb : b = 0x2d
    · subst hb; rfl
    · simp [numberSign, hb]

theorem exponentSign_append {l : List UInt8} (hl : l ≠ []) (ext : List UInt8) :
    exponentSign (l ++ ext) = ((exponentSign l).1, (exponentSign l).2 ++ ext) := by
  cases l with
  | nil => exact absurd rfl hl
  | cons b l =>
    by_cases h₁ : b = 0x2b
    · subst h₁; rfl
    by_cases h₂ : b = 0x2d
    · subst h₂; rfl
    simp [exponentSign, h₁, h₂]

theorem fraction_append {rest ext frac r : List UInt8} (h : fraction rest = some (frac, r))
    (hs : r = [] → EndsToken ext) : fraction (rest ++ ext) = some (frac, r ++ ext) := by
  cases rest with
  | nil =>
    cases h
    cases ext with
    | nil => rfl
    | cons b e =>
      have hb : b ≠ 0x2e := (hs rfl b rfl).2.1
      simp [fraction, hb]
  | cons b l =>
    by_cases hb : b = 0x2e
    · subst hb
      simp only [fraction, List.cons_append] at h ⊢
      split at h
      · cases h
      · rename_i hds
        cases h
        obtain ⟨ht, hd⟩ := @run_append UInt8 isDigitByte l ext
          fun hd x hx => (hs hd x hx).1
        rw [ht, hd, if_neg hds]
    · have hf : ∀ t, fraction (b :: t) = some ([], b :: t) := fun t => by simp [fraction, hb]
      rw [hf] at h
      cases h
      rw [List.cons_append, hf]

theorem exponent_append {rest ext ex r : List UInt8} (h : exponent rest = some (ex, r))
    (hs : r = [] → EndsToken ext) : exponent (rest ++ ext) = some (ex, r ++ ext) := by
  cases rest with
  | nil =>
    cases h
    cases ext with
    | nil => rfl
    | cons b e =>
      have hb := hs rfl b rfl
      simp [exponent, hb.2.2.1, hb.2.2.2]
  | cons e l =>
    by_cases he : (e == 0x65 || e == 0x45) = true
    · simp only [exponent, List.cons_append, if_pos he] at h ⊢
      -- an exponent letter needs digits after it, so more bytes follow it in `l`
      have hl : l ≠ [] := by
        rintro rfl
        simp [exponentSign] at h
      rw [exponentSign_append hl]
      dsimp only at h ⊢
      split at h
      · cases h
      · rename_i hds
        cases h
        obtain ⟨ht, hd⟩ := @run_append UInt8 isDigitByte (exponentSign l).2 ext
          fun hd x hx => (hs hd x hx).1
        rw [ht, hd, if_neg hds]
    · simp only [exponent, List.cons_append, if_neg he] at h ⊢
      cases h
      rfl

/-- **A number token ends where its bytes end.** A token read on its own reads the same with
more bytes after it, when those cannot continue it. -/
theorem numberToken_append {l ext : List UInt8} {s : String} {r : List UInt8}
    (h : numberToken l = some (s, r)) (hs : r = [] → EndsToken ext) :
    numberToken (l ++ ext) = some (s, r ++ ext) := by
  have hne : l ≠ [] := by
    rintro rfl
    simp [numberToken, numberSign, wholeOk] at h
  rcases hsr : numberSign l with ⟨sign, rest⟩
  simp only [numberToken, numberSign_append hne, hsr] at h ⊢
  split at h
  · cases h
  rename_i hok
  obtain ⟨⟨frac, rest₂⟩, hfrac, hexp⟩ := Option.bind_eq_some_iff.1 h
  obtain ⟨⟨ex, r'⟩, hex, heq⟩ := Option.map_eq_some_iff.1 hexp
  simp only [Prod.mk.injEq] at heq
  obtain ⟨rfl, rfl⟩ := heq
  -- an empty remainder at any stage leaves the later stages nothing, so the token's rest is
  -- empty and what follows ends it
  have hs₂ : rest₂ = [] → EndsToken ext := fun h₂ => by
    subst h₂
    cases hex
    exact hs rfl
  have hs₁ : rest.dropWhile isDigitByte = [] → ∀ x ∈ ext.head?, isDigitByte x = false :=
    fun h₁ x hx => by
      rw [h₁] at hfrac
      cases hfrac
      exact (hs₂ rfl x hx).1
  obtain ⟨ht, hd⟩ := run_append hs₁
  rw [ht, if_neg hok, hd, fraction_append hfrac hs₂, Option.bind_some,
    exponent_append hex hs, Option.map_some]

/-! ## Integers -/

theorem isDigitByte_of_isDigit {c : Char} (h : c.isDigit) : isDigitByte c.toNat.toUInt8 = true := by
  rw [Char.isDigit_iff_toNat] at h
  have h' : c.toNat < 256 := by simp at h; omega
  simp only [isDigitByte, Bool.and_eq_true, decide_eq_true_eq, UInt8.le_iff_toNat_le,
    UInt8.toNat_ofNat_of_lt' h', UInt8.reduceToNat]
  simpa using h

/-- The bytes of ASCII characters, read back one by one as characters. -/
theorem chars_of_ascii {cs : List Char} (h : ∀ c ∈ cs, c.toNat < 0x80) :
    (cs.flatMap Utf8.encodeChar).map (fun b => Char.ofNat b.toNat) = cs := by
  induction cs with
  | nil => rfl
  | cons c cs ih =>
    rw [List.flatMap_cons, Utf8.encodeChar_of_lt (h c (by simp)), List.singleton_append,
      List.map_cons, UInt8.toNat_ofNat_of_lt' (by have := h c (by simp); unfold UInt8.size; omega), Char.ofNat_toNat,
      ih fun x hx => h x (by simp [hx])]

/-- A positive number's digits do not start with zero. -/
theorem toDigits_head_ne_zero {n : Nat} (hn : 0 < n) :
    ∃ c t, Nat.toDigits 10 n = c :: t ∧ c ≠ '0' := by
  induction n using Nat.strongRecOn with
  | ind n ih =>
    by_cases h : n < 10
    · exact ⟨_, _, Nat.toDigits_of_lt_base h, by simp; omega⟩
    · obtain ⟨c, t, ht, hc⟩ := ih (n / 10) (by omega) (by omega)
      rw [Nat.toDigits_of_base_le (by omega) (by omega), ht]
      exact ⟨c, _, rfl, hc⟩

theorem wholeOk_toDigits (n : Nat) :
    wholeOk ((Nat.toDigits 10 n).flatMap Utf8.encodeChar) = true := by
  have hascii : ∀ c ∈ Nat.toDigits 10 n, c.toNat < 0x80 := fun c hc => by
    have := Char.isDigit_iff_toNat.1 (Nat.isDigit_of_mem_toDigits (by omega) (by omega) hc)
    simp at this
    omega
  rcases Nat.eq_zero_or_pos n with rfl | hn
  · rfl
  · obtain ⟨c, t, ht, hc⟩ := toDigits_head_ne_zero hn
    have hc' : c.toNat.toUInt8 ≠ 0x30 := fun h => hc (by
      have := congrArg UInt8.toNat h
      rw [UInt8.toNat_ofNat_of_lt' (by have := hascii c (by simp [ht]); unfold UInt8.size; omega)] at this
      rw [← Char.ofNat_toNat c, this]
      rfl)
    rw [ht, List.flatMap_cons, Utf8.encodeChar_of_lt (hascii c (by simp [ht])),
      List.singleton_append]
    cases t.flatMap Utf8.encodeChar with
    | nil => rfl
    | cons => simpa [wholeOk] using hc'

/-- The text of an integer, as bytes: a minus sign for a negative one, then its digits. -/
theorem encode_toString_int (i : Int) :
    Utf8.encode (toString i) = (if i < 0 then [0x2d] else []) ++
      (Nat.toDigits 10 i.natAbs).flatMap Utf8.encodeChar := by
  cases i with
  | ofNat n =>
    simp [toString, Int.repr, Utf8.encode, Nat.toList_repr]
  | negSucc m =>
    simp [toString, Int.repr, Utf8.encode, Nat.toList_repr, String.toList_append]
    rfl

/-- **The decimal text of an integer is a number token.** -/
theorem numberToken_int (i : Int) :
    numberToken (Utf8.encode (toString i)) = some (toString i, []) := by
  have hdig : ∀ c ∈ Nat.toDigits 10 i.natAbs, c.isDigit :=
    fun c hc => Nat.isDigit_of_mem_toDigits (by omega) (by omega) hc
  have hascii : ∀ c ∈ Nat.toDigits 10 i.natAbs, c.toNat < 0x80 := fun c hc => by
    have := Char.isDigit_iff_toNat.1 (hdig c hc)
    simp at this
    omega
  have hok := wholeOk_toDigits i.natAbs
  generalize hds : (Nat.toDigits 10 i.natAbs).flatMap Utf8.encodeChar = ds at hok
  have hdigits : ∀ b ∈ ds, isDigitByte b = true := by
    intro b hb
    rw [← hds, List.mem_flatMap] at hb
    obtain ⟨c, hc, hb⟩ := hb
    rw [Utf8.encodeChar_of_lt (hascii c hc), List.mem_singleton] at hb
    rw [hb]
    exact isDigitByte_of_isDigit (hdig c hc)
  have hsign : numberSign ((if i < 0 then [0x2d] else []) ++ ds) =
      ((if i < 0 then [0x2d] else []), ds) := by
    split
    · rfl
    · obtain ⟨c, t, ht, -⟩ : ∃ c t, ds = c :: t ∧ True := by
        cases hd : ds with
        | nil => rw [hd] at hok; cases hok
        | cons c t => exact ⟨c, t, rfl, trivial⟩
      have hc : c ≠ 0x2d := by
        intro h
        have := hdigits c (by simp [ht])
        rw [h] at this
        cases this
      rw [ht]
      simp [numberSign, hc]
  have htake : ds.takeWhile isDigitByte = ds := by
    simpa using @List.takeWhile_append_of_pos _ isDigitByte ds [] hdigits
  have hdrop : ds.dropWhile isDigitByte = [] := by
    simpa using @List.dropWhile_append_of_pos _ isDigitByte ds [] hdigits
  have htext : String.ofList (((if i < 0 then [0x2d] else []) ++ ds ++ [] ++ []).map
      fun (b : UInt8) => Char.ofNat b.toNat) = toString i := by
    rw [List.append_nil, List.append_nil, ← hds, ← encode_toString_int, Utf8.encode,
      chars_of_ascii, String.ofList_toList]
    intro c hc
    cases i with
    | ofNat n =>
      simp only [toString, Int.repr, Nat.toList_repr] at hc
      exact hascii c hc
    | negSucc m =>
      simp only [toString, Int.repr, String.toList_append, Nat.toList_repr] at hc
      rcases List.mem_append.1 hc with hc | hc
      · simp at hc; subst hc; decide
      · exact hascii c hc
  rw [encode_toString_int, hds, numberToken, hsign]
  dsimp only
  rw [htake, hok, hdrop]
  simp only [Bool.not_true, Bool.false_eq_true, if_false]
  rw [show fraction [] = some ([], []) from rfl, Option.bind_some,
    show exponent [] = some ([], []) from rfl, Option.map_some, htext]

/-! ## Typed reading of an integer -/

theorem u64Max_eq : Num.u64Max = 18446744073709551615 := by decide

/-- Appending a digit passes `2^64 - 1` exactly when the result does. -/
theorem overflows_eq_false {sig d : Nat} (hd : d ≤ 9) (h : sig * 10 + d ≤ Num.u64Max) :
    Num.overflows sig d = false := by
  rw [u64Max_eq] at h
  simp only [Num.overflows, u64Max_eq, Bool.and_eq_false_imp, decide_eq_true_eq,
    Bool.or_eq_false_iff, decide_eq_false_iff_not]
  omega

/-- Digits whose value stays within 64 bits are taken whole into the significand. -/
theorem whole_digits (neg : Bool) {cs : List Char} (hcs : ∀ c ∈ cs, c.isDigit) {sig : Nat}
    (hv : Nat.ofDigitChars 10 cs sig ≤ Num.u64Max) :
    Num.whole neg cs sig = Num.whole neg [] (Nat.ofDigitChars 10 cs sig) := by
  induction cs generalizing sig with
  | nil => rfl
  | cons c cs ih =>
    have hc := hcs c (by simp)
    have hd : Num.digit c ≤ 9 := by
      have := Char.isDigit_iff_toNat.1 hc
      simp only [Num.digit]
      simp at this ⊢
      omega
    rw [Nat.ofDigitChars_cons] at hv
    -- the running value never exceeds the final one
    have hstep : sig * 10 + Num.digit c ≤ Num.u64Max := by
      have := @Nat.ofDigitChars_eq_ofDigitChars_zero cs (10 * sig + (c.toNat - '0'.toNat))
      have hpos : 0 < 10 ^ cs.length := Nat.pow_pos (by omega)
      simp only [Num.digit]
      have := Nat.le_mul_of_pos_left (10 * sig + (c.toNat - '0'.toNat)) hpos
      omega
    rw [Num.whole.eq_2, if_pos hc, if_neg (by rw [overflows_eq_false hd hstep]; simp),
      ih (fun x hx => hcs x (by simp [hx])) (by rw [Nat.mul_comm]; exact hv), Nat.ofDigitChars_cons,
      Nat.mul_comm]
    rfl

/-- **A 64-bit integer reads back from its text.** -/
theorem asI64?_toInt (d : Int64) : asI64? (.number (toString d.toInt)) = some d.toInt := by
  have hlo := Int64.le_toInt d
  have hhi := Int64.toInt_lt d
  generalize d.toInt = i at hlo hhi ⊢
  have hdig : ∀ n, ∀ c ∈ Nat.toDigits 10 n, c.isDigit :=
    fun n c hc => Nat.isDigit_of_mem_toDigits (by omega) (by omega) hc
  have hval : ∀ n : Nat, n < 18446744073709551616 → Num.whole false (Nat.toDigits 10 n) 0 = some (.unsigned n) ∧
      Num.whole true (Nat.toDigits 10 n) 0 = Num.whole true [] n := fun n hn => by
    have hv : Nat.ofDigitChars 10 (Nat.toDigits 10 n) 0 ≤ Num.u64Max := by
      rw [Nat.ofDigitChars_ten_toDigits, u64Max_eq]
      omega
    rw [whole_digits false (hdig n) hv, whole_digits true (hdig n) hv,
      Nat.ofDigitChars_ten_toDigits]
    exact ⟨rfl, rfl⟩
  cases i with
  | ofNat n =>
    have hn : n < 9223372036854775808 := by simp only [Int.ofNat_eq_natCast] at hhi; omega
    obtain ⟨c, t, ht⟩ : ∃ c t, Nat.toDigits 10 n = c :: t := by
      cases h : Nat.toDigits 10 n with
      | nil => exact absurd h Nat.toDigits_ne_nil
      | cons c t => exact ⟨c, t, rfl⟩
    have hc : c ≠ '-' := fun h => by
      have := hdig n c (by simp [ht])
      rw [h] at this
      cases this
    have hw := (hval n (by omega)).1
    rw [ht] at hw
    have hcl : Num.classify (toString (Int.ofNat n)) = some (.unsigned n) := by
      simp only [Num.classify, toString, Int.repr, Nat.toList_repr, ht]
      split
      · rename_i cs h
        exact absurd (List.cons.inj h).1 hc
      · exact hw
    have hbound : n < Nat.pow 2 63 := by
      rw [Nat.pow_eq]
      omega
    simp only [asI64?]
    rw [hcl]
    simp only [if_pos hbound]
    rfl
  | negSucc m =>
    have hm : m + 1 ≤ 9223372036854775808 := by simp only [Int.negSucc_eq] at hlo; omega
    have hcl : Num.classify (toString (Int.negSucc m)) = some (.signed (Int.negSucc m)) := by
      simp only [Num.classify, toString, Int.repr, String.toList_append, Nat.toList_repr]
      rw [show "-".toList = ['-'] from rfl, List.singleton_append]
      show Num.whole true (Nat.toDigits 10 (m + 1)) 0 = _
      rw [(hval (m + 1) (by omega)).2]
      simp only [Num.whole, Bool.not_true, Bool.false_eq_true, if_false, Nat.pow_eq]
      rw [if_neg (by simp; omega), Int.negSucc_eq]
      rfl
    simp only [asI64?]
    rw [hcl]

end Json

end Telemetry
