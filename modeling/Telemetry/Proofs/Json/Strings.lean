import Telemetry.Json.Writer
import Telemetry.Json.Reader
import Telemetry.Json.Decode
import Telemetry.Proofs.Text.Utf8

/-
  String literals written by `Json.quote` read back.

  `rawOf s` is what `quote s` puts between its quotes, as bytes: every character escaped by
  `escapeChar`, then in UTF-8. The lexer's `stringBody` passes over the bytes of one
  character at a time (`stringBody_escapeBytes`) and stops at the closing quote
  (`stringBody_rawOf`); the typed reading `decodeString?` applies the escapes and decodes
  the UTF-8 one character at a time (`unescape_escapeBytes`), giving back the text
  (`decodeString?_rawOf`).
-/

namespace Telemetry

namespace Json

/-- The bytes that stand for one character inside a string literal. -/
def escapeBytes (c : Char) : List UInt8 := (escapeChar c).flatMap Utf8.encodeChar

/-- The bytes between the quotes of the literal of `s`. -/
def rawOf (s : String) : List UInt8 := s.toList.flatMap escapeBytes

theorem encode_quote (s : String) : Utf8.encode (quote s) = 0x22 :: rawOf s ++ [0x22] := by
  rw [quote, Utf8.encode_ofList, List.flatMap_append, List.flatMap_cons, List.flatMap_assoc]
  rfl

/-! ## The bytes of one escaped character -/

/-- The characters written as a backslash and a letter. -/
def letterChars : List Char := ['"', '\\', '\n', '\r', '\t', '\x08', '\x0c']

/-- The byte of a lower-case hexadecimal digit. -/
theorem encodeChar_hexDigit {k : Nat} (hk : k < 16) :
    Utf8.encodeChar (hexDigit k) = [(hexDigit k).toNat.toUInt8] :=
  Utf8.encodeChar_of_lt ((by decide : ∀ k < 16, (hexDigit k).toNat < 0x80) k hk)

theorem hexByte_facts : ∀ k < 16, isHexByte (hexDigit k).toNat.toUInt8 = true ∧
    hexValue (hexDigit k).toNat.toUInt8 = k := by
  decide

/-- A control character without a letter escape is written `\u00` and two hex digits. -/
theorem escapeBytes_of_control {c : Char} (hc : c.toNat < 0x20) (hl : c ∉ letterChars) :
    escapeBytes c = [0x5c, 0x75, 0x30, 0x30, (hexDigit (c.toNat / 16)).toNat.toUInt8,
      (hexDigit (c.toNat % 16)).toNat.toUInt8] := by
  simp only [letterChars, List.mem_cons, List.not_mem_nil, or_false, not_or] at hl
  obtain ⟨hq, hb, h₁, h₂, h₃, h₄, h₅⟩ := hl
  simp only [escapeBytes, escapeChar, beq_iff_eq, hq, hb, h₁, h₂, h₃, h₄, h₅, if_false, if_pos hc]
  simp only [List.flatMap_cons, List.flatMap_nil, encodeChar_hexDigit (Nat.div_lt_of_lt_mul
    (by omega : c.toNat < 16 * 16)), encodeChar_hexDigit (Nat.mod_lt _ (by omega : 16 > 0))]
  rfl

/-- Any other character stands for itself. -/
theorem escapeBytes_of_plain {c : Char} (hc : 0x20 ≤ c.toNat) (hl : c ∉ letterChars) :
    escapeBytes c = Utf8.encodeChar c := by
  simp only [letterChars, List.mem_cons, List.not_mem_nil, or_false, not_or] at hl
  obtain ⟨hq, hb, hn, hr, ht, h₈, h₁₂⟩ := hl
  simp [escapeBytes, escapeChar, hq, hb, hn, hr, ht, h₈, h₁₂, Nat.not_lt.2 hc]

/-- The bytes of a plain character are none of quote, backslash or a control byte. -/
theorem plain_of_mem_encodeChar {c : Char} (hc : 0x20 ≤ c.toNat) (hl : c ∉ letterChars)
    {b : UInt8} (hmem : b ∈ Utf8.encodeChar c) : b ≠ 0x22 ∧ 0x20 ≤ b.toNat ∧ b ≠ 0x5c := by
  have hq : c ≠ '"' := fun h => hl (h ▸ List.mem_cons_self)
  have hb : c ≠ '\\' := fun h => hl (h ▸ List.mem_cons_of_mem _ List.mem_cons_self)
  by_cases ha : c.toNat < 0x80
  · rw [Utf8.encodeChar_of_lt ha, List.mem_singleton] at hmem
    subst hmem
    have hq' : c.toNat ≠ 0x22 := fun h => hq (by rw [← Char.ofNat_toNat c, h])
    have hb' : c.toNat ≠ 0x5c := fun h => hb (by rw [← Char.ofNat_toNat c, h])
    rw [UInt8.toNat_ofNat_of_lt' (by unfold UInt8.size; omega)]
    refine ⟨fun h => hq' ?_, hc, fun h => hb' ?_⟩
    · have h' := congrArg UInt8.toNat h
      rw [UInt8.toNat_ofNat_of_lt' (by unfold UInt8.size; omega)] at h'
      exact h'
    · have h' := congrArg UInt8.toNat h
      rw [UInt8.toNat_ofNat_of_lt' (by unfold UInt8.size; omega)] at h'
      exact h'
  · have h8 := Utf8.le_of_mem_encodeChar (by omega) hmem
    exact ⟨fun h => by subst h; simp at h8, by omega, fun h => by subst h; simp at h8⟩

theorem length_escapeBytes_pos (c : Char) : 0 < (escapeBytes c).length := by
  obtain ⟨x, xs, hx⟩ : ∃ x xs, escapeChar c = x :: xs := by
    unfold escapeChar
    repeat' split
    all_goals exact ⟨_, _, rfl⟩
  obtain ⟨b, tl, hb⟩ := Utf8.encodeChar_eq_cons x
  simp [escapeBytes, hx, hb]

/-! ## The lexer passes over a literal -/

theorem stringBody_plain {bs : List UInt8} (hbs : ∀ b ∈ bs, b ≠ 0x22 ∧ 0x20 ≤ b.toNat ∧ b ≠ 0x5c)
    (rest acc : List UInt8) : stringBody (bs ++ rest) acc = stringBody rest (bs.reverse ++ acc) := by
  induction bs generalizing acc with
  | nil => rfl
  | cons b bs ih =>
    obtain ⟨hq, hc, hb⟩ := hbs b (by simp)
    have hlt : ¬b < 0x20 := by rw [UInt8.lt_iff_toNat_lt]; simp only [UInt8.reduceToNat]; omega
    rw [List.cons_append, stringBody.eq_def]
    simp only [beq_iff_eq, hq, hb, hlt, if_false]
    rw [ih fun x hx => hbs x (by simp [hx]), List.reverse_cons, List.append_assoc,
      List.singleton_append]

theorem stringBody_escapeBytes (c : Char) (rest acc : List UInt8) :
    stringBody (escapeBytes c ++ rest) acc = stringBody rest ((escapeBytes c).reverse ++ acc) := by
  by_cases hl : c ∈ letterChars
  · -- a backslash and a letter the lexer knows
    simp only [letterChars, List.mem_cons, List.not_mem_nil, or_false] at hl
    rcases hl with rfl | rfl | rfl | rfl | rfl | rfl | rfl <;>
      (rw [stringBody.eq_def]; simp [escapeBytes, escapeChar]; rfl)
  by_cases hc : c.toNat < 0x20
  · -- `\u00` and two hex digits
    have hhex := hexByte_facts
    have h30 : isHexByte 0x30 = true := rfl
    rw [escapeBytes_of_control hc hl, stringBody.eq_def]
    simp [h30, (hhex _ (Nat.div_lt_of_lt_mul (by omega : c.toNat < 16 * 16))).1,
      (hhex _ (Nat.mod_lt _ (by omega : 16 > 0))).1]
  · rw [escapeBytes_of_plain (by omega) hl]
    exact stringBody_plain (fun _ h => plain_of_mem_encodeChar (by omega) hl h) rest acc

theorem stringBody_flatMap (cs : List Char) (rest acc : List UInt8) :
    stringBody (cs.flatMap escapeBytes ++ 0x22 :: rest) acc =
      some (acc.reverse ++ cs.flatMap escapeBytes, rest) := by
  induction cs generalizing acc with
  | nil => rw [List.flatMap_nil, List.nil_append, stringBody.eq_def]; simp
  | cons c cs ih =>
    rw [List.flatMap_cons, List.append_assoc, stringBody_escapeBytes, ih, List.reverse_append,
      List.reverse_reverse, List.append_assoc]

/-- The lexer reads a written literal up to its closing quote. -/
theorem stringBody_rawOf (s : String) (rest : List UInt8) :
    stringBody (rawOf s ++ 0x22 :: rest) [] = some (rawOf s, rest) :=
  stringBody_flatMap s.toList rest []

/-! ## Escapes applied -/

theorem unescape_escapeBytes (c : Char) (fuel : Nat) (rest : List UInt8) :
    unescape (fuel + 1) (escapeBytes c ++ rest) = (unescape fuel rest).map (c :: ·) := by
  by_cases hl : c ∈ letterChars
  · -- the letter names the character back
    simp only [letterChars, List.mem_cons, List.not_mem_nil, or_false] at hl
    rcases hl with rfl | rfl | rfl | rfl | rfl | rfl | rfl <;>
      (simp [escapeBytes, escapeChar]; rfl)
  by_cases hc : c.toNat < 0x20
  · -- the four hex digits give back the code point, which is no surrogate
    have hhex := hexByte_facts
    have hv : hex4 0x30 0x30 (hexDigit (c.toNat / 16)).toNat.toUInt8
        (hexDigit (c.toNat % 16)).toNat.toUInt8 = c.toNat := by
      simp only [hex4, (hhex _ (Nat.div_lt_of_lt_mul (by omega : c.toNat < 16 * 16))).2,
        (hhex _ (Nat.mod_lt _ (by omega : 16 > 0))).2]
      simp [hexValue]
      omega
    rw [escapeBytes_of_control hc hl]
    simp only [List.cons_append, unescape, hv]
    simp [show ¬(0xd800 ≤ c.toNat) by omega, show ¬(0xdc00 ≤ c.toNat) by omega]
  · -- a plain character: its first byte is no backslash, and UTF-8 decodes it
    rw [escapeBytes_of_plain (by omega) hl]
    obtain ⟨b, tl, he⟩ := Utf8.encodeChar_eq_cons c
    have hb' : b ≠ 0x5c := (plain_of_mem_encodeChar (by omega) hl (he ▸ List.mem_cons_self)).2.2
    have hdec := Utf8.decodeOne_encodeChar c rest
    rw [he, List.cons_append] at hdec ⊢
    simp only [unescape, beq_iff_eq, hb', if_false, hdec]

theorem unescape_flatMap (cs : List Char) {fuel : Nat} (hf : cs.length ≤ fuel) :
    unescape fuel (cs.flatMap escapeBytes) = some cs := by
  induction cs generalizing fuel with
  | nil => cases fuel <;> rfl
  | cons c cs ih =>
    obtain ⟨fuel, rfl⟩ : ∃ f, fuel = f + 1 := ⟨fuel - 1, by simp at hf; omega⟩
    rw [List.flatMap_cons, unescape_escapeBytes, ih (by simp at hf; omega)]
    rfl

theorem length_le_length_rawOf (s : String) : s.toList.length ≤ (rawOf s).length := by
  rw [rawOf]
  induction s.toList with
  | nil => simp
  | cons c cs ih =>
    rw [List.flatMap_cons, List.length_append, List.length_cons]
    have := length_escapeBytes_pos c
    omega

/-- **A written literal reads back.** The typed reading of the bytes between the quotes of
`quote s` is `s`. -/
theorem decodeString?_rawOf (s : String) : decodeString? (rawOf s) = some s := by
  have h : unescape (rawOf s).length (rawOf s) = some s.toList :=
    unescape_flatMap s.toList (length_le_length_rawOf s)
  rw [decodeString?, h]
  simp

end Json

end Telemetry
