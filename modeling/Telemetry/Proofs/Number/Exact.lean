import Mathlib
import Telemetry.Number.Read

/-
  Whole numbers that doubles hold exactly.

  A whole number below `2^53` is a double exactly: `ofNat n` is the normal double whose
  significand is `n` shifted up to 53 bits (`view_ofNat`), and scaling `n` by a power of two
  and back rounds to the same double (`ofRatio_shiftLeft_eq_ofNat`). Sums and products of
  such numbers are exact while the result stays below `2^53` (`ofNat_add_ofNat`,
  `ofNat_mul_ofNat`), and from `2^1024` on a whole number rounds to infinity
  (`ofNat_eq_infinity`). A run of decimal digits reads as the double nearest to its value
  (`read?_digits`).

  The bit pattern is opened once (`view_pack`): a normal double packed from a significand
  and an exponent shows them back.
-/

namespace Telemetry

namespace Binary64

/-! ## Bits of a normal double -/

theorem toNat_packBits (F M : Nat) (hF : F < 2048) (hM : M < 2 ^ 52) :
    ((0 : UInt64) ||| (F.toUInt64 <<< 52) ||| M.toUInt64).toNat = F * 2 ^ 52 + M := by
  have hF' : F.toUInt64.toNat = F := by
    rw [Nat.toUInt64_eq, UInt64.toNat_ofNat']; omega
  have hM' : M.toUInt64.toNat = M := by
    rw [Nat.toUInt64_eq, UInt64.toNat_ofNat']; omega
  have h1 : (F.toUInt64 <<< 52).toNat = F * 2 ^ 52 := by
    rw [UInt64.toNat_shiftLeft, hF']
    simp [Nat.shiftLeft_eq]
    omega
  rw [UInt64.toNat_or, UInt64.toNat_or, h1, hM', UInt64.toNat_zero, Nat.zero_or,
    ← Nat.shiftLeft_eq, Nat.shiftLeft_add_eq_or_of_lt hM]

theorem exponentField_of_toNat {x : UInt64} {F M : Nat} (hF : F < 2048) (hM : M < 2 ^ 52)
    (hx : x.toNat = F * 2 ^ 52 + M) : ((x >>> 52) &&& 0x7ff).toNat = F := by
  have h52 : (52 : UInt64).toNat % 64 = 52 := by decide
  have h : (F * 2 ^ 52 + M) >>> 52 = F := by
    rw [Nat.shiftRight_eq_div_pow]
    omega
  rw [UInt64.toNat_and, UInt64.toNat_shiftRight, hx, h52, h]
  have hmask : (0x7ff : UInt64).toNat = 2 ^ 11 - 1 := by decide
  rw [hmask, Nat.and_two_pow_sub_one_eq_mod]
  omega

theorem fractionField_of_toNat {x : UInt64} {F M : Nat} (hM : M < 2 ^ 52)
    (hx : x.toNat = F * 2 ^ 52 + M) : (x &&& 0xfffffffffffff).toNat = M := by
  rw [UInt64.toNat_and, hx]
  have hmask : (0xfffffffffffff : UInt64).toNat = 2 ^ 52 - 1 := by decide
  rw [hmask, Nat.and_two_pow_sub_one_eq_mod]
  omega

theorem shiftRight_63_of_toNat {x : UInt64} (hx : x.toNat < 2 ^ 63) : x >>> 63 = 0 := by
  apply UInt64.toNat_inj.1
  rw [UInt64.toNat_shiftRight]
  simp [Nat.shiftRight_eq_div_pow]
  omega

/-- A normal double packed from its significand and exponent is positive and shows them
back. -/
theorem view_pack {q : Nat} {e : Int} (hq : hidden ≤ q) (hq' : q < 2 * hidden)
    (he : 0 < e + 1075) (he' : e + 1075 < 2047) :
    (pack false q e).view = .finite false q e ∧ (pack false q e).sign = false := by
  have hh : hidden = 2 ^ 52 := rfl
  have hbits : (pack false q e).bits =
      (0 : UInt64) ||| ((e + 1075).toNat.toUInt64 <<< 52) ||| (q - hidden).toUInt64 := by
    have hpair : (if (q == 2 * hidden) = true then (hidden, e + 1) else (q, e)) = (q, e) :=
      if_neg (by simp only [beq_iff_eq]; omega)
    unfold pack
    rw [hpair]
    dsimp only
    rw [if_neg (by omega), if_neg (by omega)]
    simp
  have hx := toNat_packBits (e + 1075).toNat (q - hidden) (by omega) (by omega)
  rw [← hbits] at hx
  have hF : (pack false q e).exponentField = (e + 1075).toNat :=
    exponentField_of_toNat (by omega) (by omega) hx
  have hM : (pack false q e).fractionField = q - hidden := fractionField_of_toNat (by omega) hx
  have hs : (pack false q e).sign = false := by
    simp only [sign, shiftRight_63_of_toNat (show (pack false q e).bits.toNat < 2 ^ 63 by omega)]
    decide
  refine ⟨?_, hs⟩
  simp only [view, hF, hM, hs]
  rw [if_neg (by simp only [beq_iff_eq]; omega), if_neg (by simp only [beq_iff_eq]; omega)]
  have h1 : q - hidden + hidden = q := by omega
  have h2 : (((e + 1075).toNat : Nat) : Int) - 1075 = e := by omega
  rw [h1, h2]

/-- A significand of at least 53 bits at an exponent past the largest finite one packs to
infinity. -/
theorem pack_eq_infinity {neg : Bool} {q : Nat} {e : Int} (hq : hidden ≤ q)
    (he : 2047 ≤ e + 1075) : pack neg q e = infinity neg := by
  unfold pack
  by_cases h : q = 2 * hidden
  · rw [if_pos (by simpa using h)]
    dsimp only
    rw [if_neg (by omega), if_pos (by omega)]
  · rw [if_neg (by simpa using h)]
    dsimp only
    rw [if_neg (by omega), if_pos (by omega)]

/-! ## Rounding whole numbers -/

theorem log2_one : Nat.log2 1 = 0 := by decide

theorem floorLog2_one {n : Nat} (hn : 0 < n) : floorLog2 n 1 = n.log2 := by
  have hle : 2 ^ n.log2 ≤ n := Nat.log2_self_le (by omega)
  unfold floorLog2 scaled
  simp only [log2_one, Nat.cast_zero, sub_zero, neg_nonneg, Nat.cast_nonpos]
  split
  · rename_i h
    simp only [h, Nat.cast_zero, neg_zero, Int.toNat_zero, Nat.shiftLeft_zero]
    split <;> omega
  · simp only [neg_neg, Int.toNat_natCast, Nat.shiftLeft_eq, one_mul]
    split <;> omega

theorem log2_shiftLeft {n : Nat} (hn : 0 < n) (j : Nat) : (n <<< j).log2 = n.log2 + j := by
  have hpos : n <<< j ≠ 0 := by simp [Nat.shiftLeft_eq]; omega
  rw [Nat.log2_eq_iff hpos, Nat.shiftLeft_eq]
  have hle : 2 ^ n.log2 ≤ n := Nat.log2_self_le (by omega)
  have hlt : n < 2 ^ (n.log2 + 1) := Nat.lt_log2_self
  constructor
  · rw [pow_add]; exact Nat.mul_le_mul_right _ hle
  · rw [show n.log2 + j + 1 = (n.log2 + 1) + j by omega, pow_add]
    exact Nat.mul_lt_mul_of_pos_right hlt (by positivity)

/-- Bringing `n · 2^j` to the shift `k - j` gives a quotient that is `n · 2^k` exactly. -/
theorem scaled_shiftLeft (n j k : Nat) :
    0 < (scaled (n <<< j) 1 ((k : Int) - j)).2 ∧
      (scaled (n <<< j) 1 ((k : Int) - j)).1 =
        (n <<< k) * (scaled (n <<< j) 1 ((k : Int) - j)).2 := by
  unfold scaled
  split
  · have hk : ((k : Int) - j).toNat = k - j := by omega
    simp only [hk, Nat.shiftLeft_eq, Nat.mul_one, Nat.one_pos, true_and]
    rw [Nat.mul_assoc, ← pow_add, show j + (k - j) = k by omega]
  · have hk : (-((k : Int) - j)).toNat = j - k := by omega
    simp only [hk, Nat.shiftLeft_eq, Nat.one_mul]
    refine ⟨by positivity, ?_⟩
    rw [Nat.mul_assoc, ← pow_add, show k + (j - k) = j by omega]

theorem roundHalfEven_mul {d : Nat} (hd : 0 < d) (q : Nat) :
    roundHalfEven (q * d / d) (q * d % d) d = q := by
  simp only [roundHalfEven, Nat.mul_mod_left, Nat.mul_div_cancel _ hd]
  split
  · omega
  · split
    · rename_i h; simp at h; omega
    · rfl

theorem le_roundHalfEven (q r d : Nat) : q ≤ roundHalfEven q r d := by
  unfold roundHalfEven
  split
  · omega
  · split <;> omega

/-- A whole number below `2^53` scaled by any power of two rounds to the same double: its
significand shifted up to 53 bits. -/
theorem ofRatio_shiftLeft {n : Nat} (hn : 0 < n) (hlt : n < 2 ^ 53) (j : Nat) :
    ofRatio false (n <<< j) 1 (-(j : Int)) =
      pack false (n <<< (52 - n.log2)) ((n.log2 : Int) - 52) := by
  have hL : n.log2 < 53 := (Nat.log2_lt (by omega)).2 hlt
  unfold ofRatio
  rw [if_neg (by simp [Nat.shiftLeft_eq]; omega),
    floorLog2_one (by simp [Nat.shiftLeft_eq]; positivity), log2_shiftLeft hn]
  have he : max (-1074 : Int) ((n.log2 + j : Nat) + -(j : Int) - 52) = (n.log2 : Int) - 52 := by
    omega
  have hs : -(j : Int) - ((n.log2 : Int) - 52) = ((52 - n.log2 : Nat) : Int) - j := by omega
  simp only [he, hs]
  obtain ⟨hpos, hsc⟩ := scaled_shiftLeft n j (52 - n.log2)
  generalize scaled (n <<< j) 1 (((52 - n.log2 : Nat) : Int) - j) = p at hpos hsc ⊢
  obtain ⟨a, b⟩ := p
  simp only at hpos hsc ⊢
  rw [hsc, roundHalfEven_mul hpos]

theorem ofNat_zero : ofNat 0 = zero false := rfl

theorem view_zero : (zero false).view = .finite false 0 (-1074) ∧ (zero false).sign = false := by
  constructor <;> rfl

theorem ofNat_eq_pack {n : Nat} (hn : 0 < n) (hlt : n < 2 ^ 53) :
    ofNat n = pack false (n <<< (52 - n.log2)) ((n.log2 : Int) - 52) := by
  have h := ofRatio_shiftLeft hn hlt 0
  rwa [Nat.shiftLeft_zero, Nat.cast_zero, neg_zero] at h

/-- **A whole number below `2^53` is a double exactly**: a positive one whose significand is
the number shifted left by some `k`, at exponent `-k`. -/
theorem view_ofNat {n : Nat} (hlt : n < 2 ^ 53) :
    ∃ k : Nat, (ofNat n).view = .finite false (n <<< k) (-(k : Int)) ∧
      (ofNat n).sign = false := by
  rcases Nat.eq_zero_or_pos n with rfl | hn
  · exact ⟨1074, by simpa [ofNat_zero] using view_zero⟩
  · have hL : n.log2 < 53 := (Nat.log2_lt (by omega)).2 hlt
    have hle : 2 ^ n.log2 ≤ n := Nat.log2_self_le (by omega)
    have hlt' : n < 2 ^ (n.log2 + 1) := Nat.lt_log2_self
    -- the shifted significand fills exactly 53 bits
    have hq : hidden ≤ n <<< (52 - n.log2) := by
      rw [Nat.shiftLeft_eq, show hidden = 2 ^ n.log2 * 2 ^ (52 - n.log2) by
        rw [← pow_add, show n.log2 + (52 - n.log2) = 52 by omega]; rfl]
      exact Nat.mul_le_mul_right _ hle
    have hq' : n <<< (52 - n.log2) < 2 * hidden := by
      rw [Nat.shiftLeft_eq, show 2 * hidden = 2 ^ (n.log2 + 1) * 2 ^ (52 - n.log2) by
        rw [← pow_add, show n.log2 + 1 + (52 - n.log2) = 53 by omega]; rfl]
      exact Nat.mul_lt_mul_of_pos_right hlt' (by positivity)
    obtain ⟨hv, hs⟩ := @view_pack _ ((n.log2 : Int) - 52) hq hq' (by omega) (by omega)
    refine ⟨52 - n.log2, ?_, ?_⟩
    · rw [ofNat_eq_pack hn hlt, hv]
      congr 1
      omega
    · rw [ofNat_eq_pack hn hlt, hs]

/-- Scaling a whole number below `2^53` by a power of two and back leaves its double as it
was. -/
theorem ofRatio_shiftLeft_eq_ofNat {n : Nat} (hlt : n < 2 ^ 53) (j : Nat) :
    ofRatio false (n <<< j) 1 (-(j : Int)) = ofNat n := by
  rcases Nat.eq_zero_or_pos n with rfl | hn
  · simp [ofRatio, ofNat_zero]
  · rw [ofRatio_shiftLeft hn hlt, ofNat_eq_pack hn hlt]

/-- A whole number of at least `2^1024` (its highest bit at 1024 or above) rounds to
infinity. -/
theorem ofNat_eq_infinity {n : Nat} (hL : 1024 ≤ n.log2) : ofNat n = infinity false := by
  have hpos : 0 < n := by
    rcases Nat.eq_zero_or_pos n with rfl | h
    · simp at hL
    · exact h
  have hle : 2 ^ n.log2 ≤ n := Nat.log2_self_le (by omega)
  unfold ofNat ofRatio
  rw [if_neg (by simp; omega), floorLog2_one hpos]
  have he : max (-1074 : Int) ((n.log2 : Int) + 0 - 52) = ((n.log2 - 52 : Nat) : Int) := by
    omega
  have hs : (0 : Int) - ((n.log2 - 52 : Nat) : Int) < 0 := by omega
  simp only [he, scaled, if_neg (not_le.2 hs)]
  apply pack_eq_infinity _ (by omega)
  -- the quotient by `2^(log2 n - 52)` keeps at least 53 bits
  have hd : 1 <<< (-((0 : Int) - ((n.log2 - 52 : Nat) : Int))).toNat = 2 ^ (n.log2 - 52) := by
    rw [Nat.shiftLeft_eq, Nat.one_mul]; congr 1; omega
  rw [hd]
  refine le_trans ?_ (le_roundHalfEven _ _ _)
  rw [Nat.le_div_iff_mul_le (by positivity), show hidden = 2 ^ 52 from rfl, ← pow_add,
    show 52 + (n.log2 - 52) = n.log2 by omega]
  exact hle

/-! ## Sums and products -/

/-- The product of two whole numbers is exact while it stays below `2^53`. -/
theorem ofNat_mul_ofNat {a b : Nat} (ha : a < 2 ^ 53) (hb : b < 2 ^ 53) (hab : a * b < 2 ^ 53) :
    ofNat a * ofNat b = ofNat (a * b) := by
  obtain ⟨ka, hva, hsa⟩ := view_ofNat ha
  obtain ⟨kb, hvb, hsb⟩ := view_ofNat hb
  show mul (ofNat a) (ofNat b) = _
  unfold mul
  rw [hva, hvb, hsa, hsb]
  have hm : (a <<< ka) * (b <<< kb) = (a * b) <<< (ka + kb) := by
    simp only [Nat.shiftLeft_eq, pow_add]; ring
  have he : -(ka : Int) + -(kb : Int) = -((ka + kb : Nat) : Int) := by omega
  simp only [bne_self_eq_false, hm, he]
  exact ofRatio_shiftLeft_eq_ofNat hab _

/-- The sum of two whole numbers is exact while it stays below `2^53`. -/
theorem ofNat_add_ofNat {a b : Nat} (hab : a + b < 2 ^ 53) :
    ofNat a + ofNat b = ofNat (a + b) := by
  obtain ⟨ka, hva, -⟩ := view_ofNat (show a < 2 ^ 53 by omega)
  obtain ⟨kb, hvb, -⟩ := view_ofNat (show b < 2 ^ 53 by omega)
  show add (ofNat a) (ofNat b) = _
  unfold add
  rw [hva, hvb]
  dsimp only
  -- both significands are brought to the larger shift, where they add as whole numbers
  have hg : min (-(ka : Int)) (-(kb : Int)) = -((max ka kb : Nat) : Int) := by omega
  have hsa : (a <<< ka) <<< (-(ka : Int) - -((max ka kb : Nat) : Int)).toNat =
      a <<< max ka kb := by
    rw [← Nat.shiftLeft_add]; congr 1; omega
  have hsb : (b <<< kb) <<< (-(kb : Int) - -((max ka kb : Nat) : Int)).toNat =
      b <<< max ka kb := by
    rw [← Nat.shiftLeft_add]; congr 1; omega
  have ht : (1 : Int) * ((a <<< max ka kb : Nat) : Int) + 1 * ((b <<< max ka kb : Nat) : Int) =
      (((a + b) <<< max ka kb : Nat) : Int) := by
    simp only [Nat.shiftLeft_eq]; push_cast; ring
  simp only [hg, hsa, hsb, Bool.false_eq_true, if_false, ht]
  split
  · rename_i h0
    have hz : a + b = 0 := by
      simp only [beq_iff_eq, Nat.cast_eq_zero, Nat.shiftLeft_eq] at h0
      simpa using h0
    rw [hz, ofNat_zero]
    rfl
  · have hpos : decide ((((a + b) <<< max ka kb : Nat) : Int) < 0) = false :=
      decide_eq_false (not_lt.2 (Int.natCast_nonneg _))
    rw [hpos, Int.natAbs_natCast]
    exact ofRatio_shiftLeft_eq_ofNat hab (max ka kb)

end Binary64

/-! ## Reading digits -/

theorem Char.toLower_of_isDigit {c : Char} (h : c.isDigit = true) : c.toLower = c := by
  simp only [Char.toLower, Char.isDigit, Bool.and_eq_true, decide_eq_true_eq] at *
  split
  · rename_i hu
    have h1 := hu.1
    have h2 := h.2
    simp only [UInt32.le_iff_toNat_le] at h1 h2
    simp at h1 h2
    omega
  · rfl

namespace Decimal

theorem splitSign_of_isDigit {c : Char} (h : c.isDigit = true) (cs : List Char) :
    splitSign (c :: cs) = (false, c :: cs) := by
  unfold splitSign
  split
  · simp_all [Char.isDigit]
  · simp_all [Char.isDigit]
  · rfl

theorem digitCount_le {v k : Nat} (hk : 0 < k) (hv : v < Nat.pow 10 k) : digitCount v ≤ k := by
  simpa [digitCount, Nat.repr] using Nat.toDigits_length 10 v k hk hv

end Decimal

namespace Binary64

/-- A number below `2^k` has at most `m` decimal digits when `2^k ≤ 10^m`. -/
theorem digitCount_le_of_log2_lt {v k m : Nat} (hv : v.log2 < k)
    (hkm : Nat.pow 2 k ≤ Nat.pow 10 m) (hm : 0 < m) : Decimal.digitCount v ≤ m := by
  rcases Nat.eq_zero_or_pos v with rfl | hpos
  · exact le_trans (by decide) hm
  · exact Decimal.digitCount_le hm (lt_of_lt_of_le ((Nat.log2_lt (by omega)).1 hv) hkm)

theorem log2_ge_of_digitCount {v : Nat} (h : 311 < Decimal.digitCount v) : 1024 ≤ v.log2 := by
  by_contra hlt
  exact absurd h (not_lt.2
    (@digitCount_le_of_log2_lt v 1024 311 (by omega) (by decide +kernel) (by norm_num)))

/-- A whole number in scientific form reads as the double nearest to it: past 311 digits
the reader answers infinity at once, and so does rounding. -/
theorem ofScientific_whole (v : Nat) : ofScientific ⟨false, v, 0⟩ = ofNat v := by
  unfold ofScientific
  split
  · rename_i h0
    rw [show v = 0 by simpa using h0]
    rfl
  · dsimp only
    split
    · rename_i hbig
      exact (ofNat_eq_infinity (log2_ge_of_digitCount (by omega))).symm
    · rw [if_neg (by omega), if_pos le_rfl]
      simp [ofNat]

/-- **A run of decimal digits reads as the double nearest to its value.** -/
theorem read?_digits {ds : List Char} (hne : ds ≠ []) (hd : ∀ c ∈ ds, c.isDigit = true) :
    read? (String.ofList ds) = some (ofNat (Decimal.digitsValue ds)) := by
  obtain ⟨c, cs, rfl⟩ := List.exists_cons_of_ne_nil hne
  have hc := hd c List.mem_cons_self
  have hlower : lowerAscii (c :: cs) = c :: cs := by
    unfold lowerAscii
    exact (List.map_congr_left (fun x hx => Char.toLower_of_isDigit (hd x hx))).trans
      (List.map_id' _)
  -- digits spell none of the words `inf`, `infinity` and `nan`
  have hword : ∀ w : String, 'i' ∈ w.toList ∨ 'n' ∈ w.toList →
      (String.ofList (c :: cs) == w) = false := by
    intro w hw
    rw [beq_eq_false_iff_ne]
    rintro rfl
    rcases hw with hw | hw <;> exact absurd (hd _ (by simpa using hw)) (by decide)
  have htake : (c :: cs).takeWhile Char.isDigit = c :: cs := List.takeWhile_eq_self_iff.2 hd
  have hdrop : (c :: cs).dropWhile Char.isDigit = [] := List.dropWhile_eq_nil_iff.2 hd
  unfold read?
  simp only [String.toList_ofList, Decimal.splitSign_of_isDigit hc, hlower,
    hword "inf" (by simp), hword "infinity" (by simp), hword "nan" (by simp), Bool.false_or,
    Bool.false_eq_true, if_false, Decimal.scientific?, htake, hdrop, List.isEmpty_cons,
    Bool.false_and, List.append_nil, List.length_nil, Nat.cast_zero, neg_zero, Option.map_some,
    ofScientific_whole]

end Binary64

end Telemetry
