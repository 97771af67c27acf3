import Mathlib
import Telemetry.Crypto.Rsa

/-
  What a valid RSA key pair does: its private operation undoes its public one.

  The arithmetic first. `Rsa.powMod` is `b ^ e % m` (`powMod_eq`): squaring over the bits of
  the exponent keeps the accumulator times the power still to come fixed modulo `m`.
  `Rsa.invMod` is the extended Euclidean algorithm, and what it answers is an inverse
  (`invMod_mul`): each remainder it keeps is its coefficient times `a`, modulo `m`. A key size
  `k` brackets the modulus, `256 ^ (k - 1) ≤ n < 256 ^ k` (`size_bounds`), and `toBytes` and
  `Der.bigEndian` carry numbers below `256 ^ k` to `k` bytes and back (`bigEndian_toBytes`,
  `toBytes_bigEndian`).

  A key is valid when it passes the key check and its two factors are distinct primes
  (`PrivateKey.Valid`). Then raising to `e` and then to `d` gives every number back modulo
  each prime (Fermat's little theorem, `pow_eq_self_of_mod`), so `PrivateKey.raw` undoes
  `powMod · e n` on every number below the modulus (`raw_powMod`): directly when no inverse
  of `q` modulo `p` is found, and through the two primes and the Chinese remainder theorem
  otherwise.
-/

namespace Telemetry

namespace Rsa

/-! ## Powers and inverses -/

/-- Squaring and multiplying: the result is the accumulator times the power still to come. -/
theorem powMod_go_eq {m : Nat} (fuel : Nat) : ∀ {base exp acc : Nat}, exp < 2 ^ fuel →
    acc % m = acc → powMod.go m base exp acc fuel = acc * base ^ exp % m := by
  induction fuel with
  | zero =>
    intro base exp acc hexp hacc
    obtain rfl : exp = 0 := by simpa using hexp
    simpa [powMod.go] using hacc.symm
  | succ fuel ih =>
    intro base exp acc hexp hacc
    rw [powMod.go]
    by_cases h0 : exp = 0
    · simpa [h0] using hacc.symm
    have hhalf : exp / 2 < 2 ^ fuel := by
      rw [pow_succ] at hexp
      omega
    have hacc' : (if exp % 2 == 1 then acc * base % m else acc) % m =
        (if exp % 2 == 1 then acc * base % m else acc) := by
      split
      · exact Nat.mod_mod _ _
      · exact hacc
    -- the squared base carries the even part of the exponent
    have hsq : (base * base % m) ^ (exp / 2) % m = base ^ (2 * (exp / 2)) % m := by
      rw [← Nat.pow_mod, pow_mul, sq]
    rw [if_neg (by simpa using h0), ih hhalf hacc', Nat.mul_mod, hsq, ← Nat.mul_mod]
    split
    · rename_i hodd
      have hexp' : exp = 2 * (exp / 2) + 1 := by
        simp only [beq_iff_eq] at hodd
        omega
      rw [Nat.mod_mul_mod, mul_assoc, ← pow_succ', ← hexp']
    · rename_i heven
      have hexp' : exp = 2 * (exp / 2) := by
        simp only [beq_iff_eq] at heven
        omega
      rw [← hexp']

/-- `powMod` is the power modulo `m`. -/
theorem powMod_eq (b e m : Nat) : powMod b e m = b ^ e % m := by
  unfold powMod
  split
  · rename_i hm
    rw [beq_iff_eq] at hm
    subst hm
    rw [Nat.mod_one]
  · rename_i hm
    have hone : 1 % m = 1 := by
      rcases m with _ | _ | m
      · rfl
      · simp at hm
      · exact Nat.mod_eq_of_lt (by omega)
    rw [powMod_go_eq _ Nat.lt_log2_self hone, one_mul, ← Nat.pow_mod]

theorem powMod_lt {m : Nat} (hm : 0 < m) (b e : Nat) : powMod b e m < m := by
  rw [powMod_eq]
  exact Nat.mod_lt _ hm

/-- The extended Euclidean algorithm keeps each remainder equal to its coefficient times `a`,
modulo `m`, so a remainder of one comes with the inverse. -/
theorem invMod_go_mul {a m : Nat} [NeZero m] (fuel : Nat) : ∀ {r0 r1 : Nat} {s0 s1 : Int},
    ((r0 : Int) : ZMod m) = s0 * a → ((r1 : Int) : ZMod m) = s1 * a →
    ∀ {x : Nat}, invMod.go m r0 r1 s0 s1 fuel = some x → (a : ZMod m) * x = 1 := by
  induction fuel with
  | zero =>
    intro r0 r1 s0 s1 _ _ x hx
    cases hx
  | succ fuel ih =>
    intro r0 r1 s0 s1 h0 h1 x hx
    rw [invMod.go] at hx
    split at hx
    · -- a remainder of zero: the one before it is the answer's remainder
      split at hx
      · rename_i hr0
        rw [beq_iff_eq] at hr0
        cases hx
        have hnonneg : 0 ≤ s0 % (m : Int) := Int.emod_nonneg _ (by exact_mod_cast NeZero.ne m)
        have hcast : ((s0 % m).toNat : ZMod m) = (s0 : ZMod m) := by
          rw [← Int.cast_natCast, Int.toNat_of_nonneg hnonneg, ZMod.intCast_mod]
        rw [hcast, mul_comm, ← h0, hr0]
        simp
      · cases hx
    · -- one division step: the new remainder is the old one less a multiple of the next
      refine ih h1 ?_ hx
      have hdiv : ((r0 % r1 : Nat) : Int) = r0 - (r0 / r1 : Nat) * r1 := by
        have := Nat.div_add_mod r0 r1
        push_cast
        linarith
      rw [hdiv]
      push_cast at h0 h1 ⊢
      rw [h0, h1]
      ring

/-- What `invMod` answers is an inverse. -/
theorem invMod_mul {a m x : Nat} (h : invMod a m = some x) : (a : ZMod m) * x = 1 := by
  unfold invMod at h
  split at h
  · cases h
  · rename_i hm
    have : NeZero m := ⟨by simpa using hm⟩
    refine invMod_go_mul _ ?_ ?_ h
    · simp
    · simp

/-! ## Numbers and bytes -/

theorem toBytes_succ (v len : Nat) :
    toBytes v (len + 1) = toBytes (v / 256) len ++ [(v % 256).toUInt8] := by
  simp only [toBytes, List.range_succ_eq_map, List.reverse_cons, List.map_append]
  congr 1
  · rw [← List.map_reverse, List.map_map]
    apply List.map_congr_left
    intro i _
    simp only [Function.comp_apply, Nat.succ_eq_add_one, Nat.pow_eq, pow_succ',
      Nat.div_div_eq_div_mul]
  · simp

theorem bigEndian_concat (l : List UInt8) (b : UInt8) :
    Der.bigEndian (l ++ [b]) = Der.bigEndian l * 256 + b.toNat := by
  simp [Der.bigEndian, List.foldl_append]

/-- Bytes of a number read back as the number, less what does not fit. -/
theorem bigEndian_toBytes (v len : Nat) : Der.bigEndian (toBytes v len) = v % 256 ^ len := by
  induction len generalizing v with
  | zero => simp [toBytes, Der.bigEndian, Nat.mod_one]
  | succ len ih =>
    rw [toBytes_succ, bigEndian_concat, ih, pow_succ', Nat.mod_mul]
    simp only [Nat.toUInt8_eq, UInt8.toNat_ofNat', Nat.mod_mod]
    ring

/-- A number read from bytes is written back as the same bytes. -/
theorem toBytes_bigEndian (l : List UInt8) : toBytes (Der.bigEndian l) l.length = l := by
  induction l using List.reverseRecOn with
  | nil => rfl
  | append_singleton l b ih =>
    have hb : b.toNat < 256 := b.toNat_lt
    rw [bigEndian_concat, List.length_append, List.length_singleton, toBytes_succ]
    have hdiv : (Der.bigEndian l * 256 + b.toNat) / 256 = Der.bigEndian l := by omega
    have hmod : (Der.bigEndian l * 256 + b.toNat) % 256 = b.toNat := by omega
    rw [hdiv, hmod, ih]
    simp

theorem bigEndian_lt (l : List UInt8) : Der.bigEndian l < 256 ^ l.length := by
  conv_lhs => rw [← toBytes_bigEndian l, bigEndian_toBytes]
  exact Nat.mod_lt _ (by positivity)

theorem bigEndian_zero_cons (l : List UInt8) : Der.bigEndian (0 :: l) = Der.bigEndian l := by
  simp [Der.bigEndian]

/-- A modulus of key size `k` lies from `256 ^ (k - 1)` up to below `256 ^ k`. -/
theorem size_bounds {n : Nat} (hn : n ≠ 0) : 256 ^ (size n - 1) ≤ n ∧ n < 256 ^ size n := by
  have hlow := Nat.log2_self_le hn
  have hhigh : n < 2 ^ (n.log2 + 1) := Nat.lt_log2_self
  have hsize : size n = n.log2 / 8 + 1 := by
    unfold size
    omega
  have h256 : ∀ j, (256 : Nat) ^ j = 2 ^ (8 * j) := fun j => by rw [pow_mul]; norm_num
  rw [hsize, Nat.add_sub_cancel, h256, h256]
  constructor
  · exact (Nat.pow_le_pow_right (by norm_num) (by omega)).trans hlow
  · exact hhigh.trans_le (Nat.pow_le_pow_right (by norm_num) (by omega))

/-! ## Valid keys -/

/-- A key as RSA needs it: it passes the key check, and its two factors are distinct primes. -/
structure PrivateKey.Valid (key : PrivateKey) : Prop where
  checked : checkPrivate key.n key.e key.d key.p key.q = .ok ()
  prime_p : key.p.Prime
  prime_q : key.q.Prime
  distinct : key.p ≠ key.q

/-- What the key check checks. -/
theorem checkPrivate_eq_ok {n e d p q : Nat} (h : checkPrivate n e d p q = .ok ()) :
    checkShape n e = .ok () ∧ p * q = n ∧ d * e % (p - 1) = 1 ∧ d * e % (q - 1) = 1 := by
  unfold checkPrivate at h
  cases hshape : checkShape n e with
  | error f => simp [hshape, bind, Except.bind] at h
  | ok u =>
    simp only [hshape, bind, Except.bind] at h
    split at h
    · cases h
    split at h
    · cases h
    split at h
    · cases h
    rename_i _ hmul hinv
    simp only [bne_iff_ne, ne_eq, Decidable.not_not] at hmul
    simp only [Bool.or_eq_true, bne_iff_ne, ne_eq, not_or, Decidable.not_not] at hinv
    exact ⟨rfl, hmul, hinv⟩

namespace PrivateKey.Valid

variable {key : PrivateKey} (hv : key.Valid)
include hv

theorem mul_eq : key.p * key.q = key.n := (checkPrivate_eq_ok hv.checked).2.1

theorem shape : checkShape key.n key.e = .ok () := (checkPrivate_eq_ok hv.checked).1

theorem n_pos : 0 < key.n := by
  rw [← hv.mul_eq]
  exact Nat.mul_pos hv.prime_p.pos hv.prime_q.pos

theorem coprime : key.p.Coprime key.q := (Nat.coprime_primes hv.prime_p hv.prime_q).2 hv.distinct

theorem p_dvd : key.p ∣ key.n := ⟨key.q, hv.mul_eq.symm⟩

theorem q_dvd : key.q ∣ key.n := ⟨key.p, by rw [← hv.mul_eq, Nat.mul_comm]⟩

/-- The private exponent inverts the public one modulo each prime less one. -/
theorem inverse : key.d * key.e % (key.p - 1) = 1 ∧ key.d * key.e % (key.q - 1) = 1 :=
  (checkPrivate_eq_ok hv.checked).2.2

end PrivateKey.Valid

/-- Raising to `k` gives every residue back modulo a prime `p` when `k ≡ 1` modulo `p - 1`. -/
theorem pow_eq_self_of_mod {p : Nat} [Fact p.Prime] {k : Nat} (hk : k % (p - 1) = 1)
    (x : ZMod p) : x ^ k = x := by
  have hsplit : k = (p - 1) * (k / (p - 1)) + 1 := by
    have := Nat.div_add_mod k (p - 1)
    omega
  by_cases hx : x = 0
  · rw [hx, zero_pow (by omega)]
  · rw [hsplit, pow_succ, pow_mul, ZMod.pow_card_sub_one_eq_one hx, one_pow, one_mul]

/-- A number taken modulo a multiple of `p` keeps its residue modulo `p`. -/
theorem cast_mod_of_dvd {p n : Nat} (h : p ∣ n) (a : Nat) : ((a % n : Nat) : ZMod p) = a :=
  (ZMod.natCast_eq_natCast_iff' _ _ _).2 (Nat.mod_mod_of_dvd a h)

/-- The public power raised to `j` gives the message back modulo a prime factor `p` of the
modulus, when `e · j ≡ 1` modulo `p - 1`. -/
theorem cast_powMod_pow {p n : Nat} [Fact p.Prime] (hpn : p ∣ n) {e j : Nat}
    (hej : e * j % (p - 1) = 1) (m : Nat) : (((powMod m e n) ^ j : Nat) : ZMod p) = m := by
  rw [powMod_eq, Nat.cast_pow, cast_mod_of_dvd hpn, Nat.cast_pow, ← pow_mul,
    pow_eq_self_of_mod hej]

/-- Two numbers below `p · q` with the same residues modulo coprime `p` and `q` are equal. -/
theorem eq_of_cast_eq {p q a b : Nat} (hpq : p.Coprime q) (ha : a < p * q) (hb : b < p * q)
    (hp : (a : ZMod p) = b) (hq : (a : ZMod q) = b) : a = b := by
  have hmod := (Nat.modEq_and_modEq_iff_modEq_mul hpq).1
    ⟨(ZMod.natCast_eq_natCast_iff' _ _ _).1 hp, (ZMod.natCast_eq_natCast_iff' _ _ _).1 hq⟩
  exact hmod.eq_of_lt_of_lt ha hb

namespace PrivateKey.Valid

variable {key : PrivateKey} (hv : key.Valid)
include hv

/-- The direct private power gives the message back. -/
theorem pow_powMod {m : Nat} (hm : m < key.n) : powMod (powMod m key.e key.n) key.d key.n = m := by
  have hp : Fact key.p.Prime := ⟨hv.prime_p⟩
  have hq : Fact key.q.Prime := ⟨hv.prime_q⟩
  rw [powMod_eq]
  apply eq_of_cast_eq hv.coprime
  · rw [hv.mul_eq]
    exact Nat.mod_lt _ hv.n_pos
  · rwa [hv.mul_eq]
  · rw [cast_mod_of_dvd hv.p_dvd,
      cast_powMod_pow hv.p_dvd (by rw [Nat.mul_comm]; exact hv.inverse.1)]
  · rw [cast_mod_of_dvd hv.q_dvd,
      cast_powMod_pow hv.q_dvd (by rw [Nat.mul_comm]; exact hv.inverse.2)]

/-- Recombining residues `m1` modulo `p` and `m2 < q` modulo `q` with an inverse of `q` modulo
`p`, as `PrivateKey.raw` does, gives the number below `p · q` with those residues. -/
theorem recombine (m1 : Nat) {m2 qinv : Nat} (hm2 : m2 < key.q)
    (hqinv : (key.q : ZMod key.p) * qinv = 1) :
    let h := ((m1 + key.p * (m2 / key.p + 1) - m2) % key.p) * qinv % key.p
    m2 + key.q * h < key.n ∧ ((m2 + key.q * h : Nat) : ZMod key.p) = m1 ∧
      ((m2 + key.q * h : Nat) : ZMod key.q) = m2 := by
  intro h
  have hp := hv.prime_p.pos
  have hh : h < key.p := Nat.mod_lt _ hp
  -- the Nat subtraction does not cut off: `p · (m2 / p + 1)` exceeds `m2`
  have hle : m2 ≤ m1 + key.p * (m2 / key.p + 1) := (Nat.lt_mul_div_succ m2 hp).le.trans (by omega)
  refine ⟨?_, ?_, ?_⟩
  · rw [← hv.mul_eq]
    calc m2 + key.q * h < key.q + key.q * h := by omega
      _ = key.q * (h + 1) := by ring
      _ ≤ key.q * key.p := Nat.mul_le_mul_left _ hh
      _ = key.p * key.q := Nat.mul_comm _ _
  · simp only [h, Nat.cast_add, Nat.cast_mul, ZMod.natCast_mod, Nat.cast_sub hle,
      ZMod.natCast_self, zero_mul, add_zero]
    linear_combination (↑m1 - ↑m2 : ZMod key.p) * hqinv
  · simp

/-- **The private operation undoes the public one.** For a valid key, `raw` takes the public
power of every number below the modulus back to the number. -/
theorem raw_powMod {m : Nat} (hm : m < key.n) : key.raw (powMod m key.e key.n) = m := by
  have hp : Fact key.p.Prime := ⟨hv.prime_p⟩
  have hq : Fact key.q.Prime := ⟨hv.prime_q⟩
  have hprimes : (key.p ≤ 1 || key.q ≤ 1) = false := by
    simp [hv.prime_p.one_lt, hv.prime_q.one_lt]
  unfold PrivateKey.raw
  rw [hprimes, if_neg Bool.false_ne_true]
  cases hqinv : invMod key.q key.p with
  | none => exact hv.pow_powMod hm
  | some qinv =>
    dsimp only
    -- the residues modulo each prime, from the exponent reduced modulo that prime less one
    have hm1 : ((powMod (powMod m key.e key.n) (key.d % (key.p - 1)) key.p : Nat) : ZMod key.p) =
        m := by
      rw [powMod_eq, ZMod.natCast_mod,
        cast_powMod_pow hv.p_dvd (by rw [Nat.mul_mod_mod, Nat.mul_comm]; exact hv.inverse.1)]
    have hm2 : ((powMod (powMod m key.e key.n) (key.d % (key.q - 1)) key.q : Nat) : ZMod key.q) =
        m := by
      rw [powMod_eq, ZMod.natCast_mod,
        cast_powMod_pow hv.q_dvd (by rw [Nat.mul_mod_mod, Nat.mul_comm]; exact hv.inverse.2)]
    obtain ⟨hlt, hcp, hcq⟩ := hv.recombine
      (powMod (powMod m key.e key.n) (key.d % (key.p - 1)) key.p)
      (powMod_lt hv.prime_q.pos _ _) (invMod_mul hqinv)
    refine eq_of_cast_eq hv.coprime (by rwa [hv.mul_eq]) (by rwa [hv.mul_eq]) ?_ ?_
    · rw [hcp, hm1]
    · rw [hcq, hm2]

end PrivateKey.Valid

end Rsa

end Telemetry
