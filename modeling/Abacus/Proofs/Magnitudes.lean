import Abacus.Proofs.Remainders
import Mathlib.Algebra.Order.Field.Power
import Mathlib.Data.Rat.Cast.Order
import Mathlib.Tactic.FieldSimp
import Mathlib.Tactic.Linarith
import Mathlib.Tactic.Ring

/-!
# Which results are infinite

A double is a rounded rational. Rounding to nearest has one exact border: from halfway between
the greatest finite double and the power of two above it, a number becomes an infinity, and below
it a finite double. `OfSize` says that a double stands on the right side of this border for a given
rational, and has its sign if it is an infinity. Sums, differences, products and quotients of finite
doubles do so for the exact result of the operation on their values, and the double of a fraction
does so for the fraction. A remainder is never larger than the dividend, so it is always finite.

Once there is an infinity, or what is not a number, the operations keep to such doubles. Only a
division by an infinity leads back.
-/

namespace Abacus

namespace Double

/-! ### Values -/

/-- A rational with a sign put before it. -/
def signed (negative : Bool) (q : ℚ) : ℚ := if negative then -q else q

/-- The value of a finite double. The others have none, and count as zero. -/
def value : Double → ℚ
  | .finite s m e => signed s (m * 2 ^ e)
  | _ => 0

/-- A finite value of the format. -/
def IsFinite : Double → Prop
  | .finite _ m e => m < 2 ^ precision ∧ minExponent ≤ e ∧ e ≤ maxExponent
  | _ => False

/-- An infinity, or what is not a number. -/
def IsSpecial : Double → Prop
  | .finite .. => False
  | _ => True

/-- From here on, rounding gives infinities: half a unit of the last place above the greatest
finite value. -/
def overflowBound : ℚ := (2 ^ precision - 1 / 2) * 2 ^ maxExponent

/-- The double is an infinity with the sign of `q` if `q` is too large, and finite if it is not. -/
def OfSize (x : Double) (q : ℚ) : Prop :=
  x = .infinite (decide (q < 0)) ∧ overflowBound ≤ |q| ∨ x.IsFinite ∧ |q| < overflowBound

theorem abs_signed (s : Bool) (q : ℚ) : |signed s q| = |q| := by
  cases s
  · rfl
  · exact abs_neg q

theorem neg_signed (s : Bool) (q : ℚ) : -signed s q = signed (!s) q := by
  cases s
  · rfl
  · exact neg_neg q

theorem signed_mul_signed (s t : Bool) (p q : ℚ) : signed s p * signed t q = signed (s != t) (p * q) := by
  cases s <;> cases t <;> simp [signed]

theorem signed_div_signed (s t : Bool) (p q : ℚ) : signed s p / signed t q = signed (s != t) (p / q) := by
  cases s <;> cases t <;> simp [signed, neg_div, div_neg]

/-- A positive rational has the sign that is put before it. -/
theorem signed_neg_iff {s : Bool} {q : ℚ} (hq : 0 < q) : decide (signed s q < 0) = s := by
  cases s
  · exact decide_eq_false hq.not_gt
  · exact decide_eq_true (neg_neg_of_pos hq)

theorem overflowBound_pos : 0 < overflowBound := by
  have hhalf : (1 / 2 : ℚ) < 2 ^ precision := by norm_num [precision]
  exact mul_pos (sub_pos.mpr hhalf) (zpow_pos two_pos _)

/-! ### Powers of two -/

/-- A power of two as a fraction of naturals, in the way of the definitions. -/
theorem two_zpow (e : Int) : (2 : ℚ) ^ e = (2 ^ e.toNat : Nat) / (2 ^ (-e).toNat : Nat) := by
  obtain ⟨n, rfl | rfl⟩ := e.eq_nat_or_neg
  · simp
  · simp

theorem zpow_mul_two_pow (e : Int) (n : Nat) : (2 : ℚ) ^ e * (2 ^ n : Nat) = 2 ^ (e + n) := by
  rw [zpow_add₀ two_ne_zero, zpow_natCast, Nat.cast_pow, Nat.cast_ofNat]

/-- A comparison with units of `2 ^ e`, cleared of fractions. -/
theorem mul_zpow_le_div_iff {a b n : Nat} {e : Int} (hb : 0 < b) :
    n * (2 : ℚ) ^ e ≤ a / b ↔ n * (b * 2 ^ e.toNat) ≤ a * 2 ^ (-e).toNat := by
  have hb' : (0 : ℚ) < b := Nat.cast_pos.mpr hb
  have hden : (0 : ℚ) < (2 ^ (-e).toNat : Nat) := Nat.cast_pos.mpr (Nat.two_pow_pos _)
  rw [two_zpow, ← mul_div_assoc, div_le_div_iff₀ hden hb', ← Nat.cast_mul, ← Nat.cast_mul, ← Nat.cast_mul,
    Nat.cast_le, Nat.mul_assoc, Nat.mul_comm _ b]

/-- The exponent of the greatest power of two that is not above a fraction. -/
theorem binaryExponent_bounds {a b : Nat} (ha : a ≠ 0) (hb : 0 < b) :
    (2 : ℚ) ^ binaryExponent a b ≤ a / b ∧ (a / b : ℚ) < 2 ^ (binaryExponent a b + 1) := by
  have hb' : (0 : ℚ) < b := Nat.cast_pos.mpr hb
  -- The logarithms leave two candidates.
  have hlow : (2 : ℚ) ^ ((a.log2 : Int) - b.log2 - 1) ≤ a / b := by
    rw [le_div_iff₀ hb']
    calc (2 : ℚ) ^ ((a.log2 : Int) - b.log2 - 1) * b
        ≤ 2 ^ ((a.log2 : Int) - b.log2 - 1) * (2 ^ (b.log2 + 1) : Nat) := by
          gcongr
          exact Nat.lt_log2_self.le
      _ = 2 ^ (0 : Int) * (2 ^ a.log2 : Nat) := by
          rw [zpow_mul_two_pow, zpow_mul_two_pow]
          congr 1
          omega
      _ = (2 ^ a.log2 : Nat) := by rw [zpow_zero, one_mul]
      _ ≤ a := Nat.cast_le.mpr (Nat.log2_self_le ha)
  have hhigh : (a / b : ℚ) < 2 ^ ((a.log2 : Int) - b.log2 + 1) := by
    rw [div_lt_iff₀ hb']
    calc (a : ℚ) < (2 ^ (a.log2 + 1) : Nat) := Nat.cast_lt.mpr Nat.lt_log2_self
      _ = 2 ^ (0 : Int) * (2 ^ (a.log2 + 1) : Nat) := by rw [zpow_zero, one_mul]
      _ = 2 ^ ((a.log2 : Int) - b.log2 + 1) * (2 ^ b.log2 : Nat) := by
          rw [zpow_mul_two_pow, zpow_mul_two_pow]
          congr 1
          omega
      _ ≤ 2 ^ ((a.log2 : Int) - b.log2 + 1) * b := by
          gcongr
          exact Nat.log2_self_le hb.ne'
  have htest := mul_zpow_le_div_iff (a := a) (n := 1) (e := (a.log2 : Int) - b.log2) hb
  rw [Nat.cast_one, one_mul, Nat.one_mul] at htest
  simp only [binaryExponent]
  split_ifs with h
  · exact ⟨htest.mpr h, hhigh⟩
  · refine ⟨hlow, ?_⟩
    rw [sub_add_cancel]
    exact not_le.mp (mt htest.mp h)

/-! ### Rounding -/

/-- A quotient is rounded up past an odd number from half a unit above it. -/
theorem lt_roundDiv_iff {a b n : Nat} (hb : 0 < b) (hn : n % 2 = 1) :
    n < roundDiv a b ↔ (2 * n + 1) * b ≤ 2 * a := by
  have hdiv := Nat.div_add_mod a b
  have hmod := Nat.mod_lt a hb
  simp only [roundDiv]
  generalize a / b = q at *
  generalize a % b = r at *
  subst hdiv
  rcases Nat.lt_trichotomy n q with h | rfl | h
  · have hnq : b * (n + 1) ≤ b * q := Nat.mul_le_mul_left b h
    rw [Nat.mul_add] at hnq
    rw [Nat.add_mul, Nat.mul_assoc, Nat.mul_comm n b]
    split_ifs <;> omega
  · rw [Nat.add_mul, Nat.mul_assoc, Nat.mul_comm n b]
    split_ifs <;> omega
  · have hnq : b * (q + 1) ≤ b * n := Nat.mul_le_mul_left b h
    rw [Nat.mul_add] at hnq
    rw [Nat.add_mul, Nat.mul_assoc, Nat.mul_comm n b]
    split_ifs <;> omega

theorem roundDiv_le {a b n : Nat} (h : a < n * b) : roundDiv a b ≤ n := by
  have hq : a / b < n := Nat.div_lt_of_lt_mul (Nat.mul_comm n b ▸ h)
  simp only [roundDiv]
  split_ifs <;> omega

/-- The mantissa before a carry. -/
def mantissa (a b : Nat) : Nat := roundDiv (a * 2 ^ (-lastPlace a b).toNat) (b * 2 ^ (lastPlace a b).toNat)

theorem div_lt_lastPlace {a b : Nat} (ha : a ≠ 0) (hb : 0 < b) :
    (a / b : ℚ) < (2 ^ precision : Nat) * 2 ^ lastPlace a b := by
  have hexp : binaryExponent a b + 1 ≤ lastPlace a b + precision := by
    rw [lastPlace, precision]
    omega
  calc (a / b : ℚ) < 2 ^ (binaryExponent a b + 1) := (binaryExponent_bounds ha hb).2
    _ ≤ 2 ^ (lastPlace a b + precision) := zpow_le_zpow_right₀ one_le_two hexp
    _ = (2 ^ precision : Nat) * 2 ^ lastPlace a b := by rw [← zpow_mul_two_pow, mul_comm]

theorem mantissa_le {a b : Nat} (ha : a ≠ 0) (hb : 0 < b) : mantissa a b ≤ 2 ^ precision :=
  roundDiv_le (not_le.mp (mt (mul_zpow_le_div_iff hb).mpr (div_lt_lastPlace ha hb).not_ge))

/-- Where an infinity comes from: the last place is beyond the greatest exponent, or a carry moves
it there. -/
theorem overflowBound_le_div_iff {a b : Nat} (ha : a ≠ 0) (hb : 0 < b) :
    overflowBound ≤ (a / b : ℚ) ↔
      maxExponent < lastPlace a b ∨ maxExponent = lastPlace a b ∧ mantissa a b = 2 ^ precision := by
  rcases lt_trichotomy maxExponent (lastPlace a b) with h | h | h
  · -- The number is at least the power of two above all finite values.
    have hexp : maxExponent + precision ≤ binaryExponent a b := by
      rw [lastPlace, maxExponent, precision, minExponent] at *
      omega
    refine iff_of_true ?_ (.inl h)
    calc overflowBound ≤ 2 ^ maxExponent * (2 ^ precision : Nat) := by
          rw [overflowBound, mul_comm, Nat.cast_pow, Nat.cast_ofNat]
          gcongr
          norm_num
      _ = 2 ^ (maxExponent + precision) := zpow_mul_two_pow _ _
      _ ≤ 2 ^ binaryExponent a b := zpow_le_zpow_right₀ one_le_two hexp
      _ ≤ a / b := (binaryExponent_bounds ha hb).1
  · -- The greatest mantissa is odd, so a half is rounded up.
    have hpos : 0 < b * 2 ^ (lastPlace a b).toNat := Nat.mul_pos hb (Nat.two_pow_pos _)
    have hcarry : mantissa a b = 2 ^ precision ↔ 2 ^ precision - 1 < mantissa a b := by
      have := mantissa_le ha hb
      have := Nat.two_pow_pos precision
      omega
    have hbound : overflowBound ≤ (a / b : ℚ) ↔
        (2 * (2 ^ precision - 1) + 1 : Nat) * (2 : ℚ) ^ lastPlace a b ≤ (2 * a : Nat) / b := by
      rw [← h, overflowBound, Nat.cast_mul, Nat.cast_ofNat, mul_div_assoc, precision]
      norm_num
      constructor <;> intro <;> linarith
    rw [hbound, mul_zpow_le_div_iff hb, Nat.mul_assoc, ← lt_roundDiv_iff hpos (by decide), ← mantissa, ← hcarry]
    simp [h]
  · -- The number is below half of that power of two.
    have hexp : lastPlace a b + 1 ≤ maxExponent := h
    refine iff_of_false (not_le.mpr ?_) (by omega)
    calc (a / b : ℚ) < (2 ^ precision : Nat) * 2 ^ lastPlace a b := div_lt_lastPlace ha hb
      _ = 2 ^ (precision - 1) * 2 ^ (lastPlace a b + 1) := by
          rw [zpow_add_one₀ two_ne_zero, precision]
          norm_num
          ring
      _ ≤ overflowBound := by
          have hhalf : (2 : ℚ) ^ (precision - 1) ≤ 2 ^ precision - 1 / 2 := by norm_num [precision]
          have hplace : (2 : ℚ) ^ (lastPlace a b + 1) ≤ 2 ^ maxExponent := zpow_le_zpow_right₀ one_le_two hexp
          exact mul_le_mul hhalf hplace (zpow_nonneg zero_le_two _) (le_trans (by positivity) hhalf)

theorem round_eq (s : Bool) {a : Nat} (b : Nat) (ha : a ≠ 0) :
    round s a b =
      if mantissa a b = 2 ^ precision then
        if maxExponent < lastPlace a b + 1 then .infinite s
        else .finite s (2 ^ (precision - 1)) (lastPlace a b + 1)
      else if maxExponent < lastPlace a b then .infinite s
      else .finite s (mantissa a b) (lastPlace a b) := by
  rw [round, if_neg ha]
  dsimp only
  rw [← lastPlace, ← mantissa]
  by_cases h : mantissa a b = 2 ^ precision
  · rw [if_pos h, if_pos h]
  · rw [if_neg h, if_neg h]

theorem ofSize_zero (s : Bool) : (zero s).OfSize 0 := by
  refine .inr ⟨⟨by decide, by decide, by decide⟩, ?_⟩
  rw [abs_zero]
  exact overflowBound_pos

/-- **Rounding overflows from the bound on, and only there.** -/
theorem ofSize_round (s : Bool) (a : Nat) {b : Nat} (hb : 0 < b) : (round s a b).OfSize (signed s (a / b)) := by
  by_cases ha : a = 0
  · rw [round, if_pos ha, ha, Nat.cast_zero, zero_div, show signed s 0 = 0 by cases s <;> rfl]
    exact ofSize_zero s
  have hpos : (0 : ℚ) < a / b := div_pos (Nat.cast_pos.mpr (Nat.pos_of_ne_zero ha)) (Nat.cast_pos.mpr hb)
  have hbound := overflowBound_le_div_iff ha hb
  have hmantissa := mantissa_le ha hb
  have hplace : minExponent ≤ lastPlace a b := le_max_right _ _
  rw [OfSize, abs_signed, abs_of_pos hpos, signed_neg_iff hpos, ← not_le, hbound, round_eq s b ha]
  split_ifs with hm hu hu
  · exact .inl ⟨rfl, by omega⟩
  · refine .inr ⟨⟨by decide, by omega, by omega⟩, by omega⟩
  · exact .inl ⟨rfl, .inl hu⟩
  · refine .inr ⟨⟨by omega, hplace, by omega⟩, by omega⟩

theorem ofSize_scale (s : Bool) (a : Nat) (e : Int) : (scale s a e).OfSize (signed s (a * 2 ^ e)) := by
  have h := ofSize_round s (a * 2 ^ e.toNat) (Nat.two_pow_pos (-e).toNat)
  rwa [Nat.cast_mul, mul_div_assoc, ← two_zpow] at h

/-! ### Operations on finite values -/

theorem IsFinite.eq_finite {x : Double} (h : x.IsFinite) : ∃ s m e, x = .finite s m e := by
  cases x with
  | finite s m e => exact ⟨s, m, e, rfl⟩
  | nan | infinite => exact h.elim

theorem IsFinite.neg {x : Double} (h : x.IsFinite) : x.neg.IsFinite := by
  obtain ⟨s, m, e, rfl⟩ := h.eq_finite
  exact h

theorem value_neg (x : Double) : x.neg.value = -x.value := by
  cases x with
  | finite s m e => exact (neg_signed s _).symm
  | nan | infinite => exact neg_zero.symm

theorem abs_value_finite (s : Bool) (m : Nat) (e : Int) : |value (.finite s m e)| = m * 2 ^ e := by
  rw [value, abs_signed, abs_of_nonneg (by positivity)]

/-- A finite value is below the bound. -/
theorem IsFinite.abs_value_lt {x : Double} (h : x.IsFinite) : |x.value| < overflowBound := by
  obtain ⟨s, m, e, rfl⟩ := h.eq_finite
  obtain ⟨hm, -, he⟩ := h
  have hm' : (m : ℚ) < 2 ^ precision - 1 / 2 := by
    have hle : (m : ℚ) + 1 ≤ 2 ^ precision := by exact_mod_cast hm
    linarith
  have he' : (2 : ℚ) ^ e ≤ 2 ^ maxExponent := zpow_le_zpow_right₀ one_le_two he
  rw [abs_value_finite]
  exact mul_lt_mul_of_lt_of_le_of_nonneg_of_pos hm' he' (Nat.cast_nonneg m) (zpow_pos two_pos _)

/-- What stays below the bound is finite. -/
theorem OfSize.isFinite {x : Double} {q : ℚ} (h : x.OfSize q) (hq : |q| < overflowBound) : x.IsFinite := by
  obtain ⟨-, hbound⟩ | ⟨hx, -⟩ := h
  · exact absurd hbound hq.not_ge
  · exact hx

/-- A shift of the units does not change the value. -/
theorem cast_shift_mul_zpow (m : Nat) {e g : Int} (h : g ≤ e) :
    ((m * 2 ^ (e - g).toNat : Nat) : ℚ) * 2 ^ g = m * 2 ^ e := by
  rw [Nat.cast_mul, mul_assoc, mul_comm _ ((2 : ℚ) ^ g), zpow_mul_two_pow, Int.toNat_of_nonneg (by omega),
    add_sub_cancel]

theorem cast_units_mul_zpow (s : Bool) (m : Nat) {e g : Int} (h : g ≤ e) :
    (units s m e g : ℚ) * 2 ^ g = signed s (m * 2 ^ e) := by
  rw [← cast_shift_mul_zpow m h]
  cases s with
  | false => rfl
  | true =>
    show ((-((m * 2 ^ (e - g).toNat : Nat) : Int) : Int) : ℚ) * 2 ^ g = _
    rw [Int.cast_neg, neg_mul, Int.cast_natCast]
    rfl

/-- An integer is its absolute value with its sign. -/
theorem cast_eq_signed (n : Int) : (n : ℚ) = signed (decide (n < 0)) n.natAbs := by
  by_cases h : n < 0
  · rw [decide_eq_true h, signed, if_pos rfl, Nat.cast_natAbs, abs_of_neg h, Int.cast_neg, neg_neg]
  · rw [decide_eq_false h, signed, if_neg (by decide), Nat.cast_natAbs, abs_of_nonneg (not_lt.mp h)]

theorem signed_mul (s : Bool) (p q : ℚ) : signed s p * q = signed s (p * q) := by
  cases s
  · rfl
  · exact neg_mul p q

theorem ofSize_add {x y : Double} (hx : x.IsFinite) (hy : y.IsFinite) : (x.add y).OfSize (x.value + y.value) := by
  obtain ⟨s, m, e, rfl⟩ := hx.eq_finite
  obtain ⟨t, n, f, rfl⟩ := hy.eq_finite
  -- The sum is a number of units of the lesser of the two exponents.
  have hsum : value (.finite s m e) + value (.finite t n f) =
      ((units s m e (min e f) + units t n f (min e f) : Int) : ℚ) * 2 ^ min e f := by
    rw [Int.cast_add, add_mul, cast_units_mul_zpow s m (min_le_left e f),
      cast_units_mul_zpow t n (min_le_right e f)]
    rfl
  rw [hsum, add]
  split_ifs with hzero
  · rw [hzero, Int.cast_zero, zero_mul]
    exact ofSize_zero _
  · rw [cast_eq_signed, signed_mul]
    exact ofSize_scale ..

theorem ofSize_sub {x y : Double} (hx : x.IsFinite) (hy : y.IsFinite) : (x.sub y).OfSize (x.value - y.value) := by
  rw [sub, sub_eq_add_neg, ← value_neg]
  exact ofSize_add hx hy.neg

theorem ofSize_mul {x y : Double} (hx : x.IsFinite) (hy : y.IsFinite) : (x.mul y).OfSize (x.value * y.value) := by
  obtain ⟨s, m, e, rfl⟩ := hx.eq_finite
  obtain ⟨t, n, f, rfl⟩ := hy.eq_finite
  have hproduct : value (.finite s m e) * value (.finite t n f) =
      signed (s != t) ((m * n : Nat) * 2 ^ (e + f)) := by
    rw [value, value, signed_mul_signed, mul_mul_mul_comm, ← zpow_add₀ two_ne_zero, Nat.cast_mul]
  rw [hproduct]
  exact ofSize_scale ..

theorem ofSize_div {x y : Double} (hx : x.IsFinite) (hy : y.IsFinite) (hzero : y.isZero = false) :
    (x.div y).OfSize (x.value / y.value) := by
  obtain ⟨s, m, e, rfl⟩ := hx.eq_finite
  obtain ⟨t, n, f, rfl⟩ := hy.eq_finite
  have hn : n ≠ 0 := ne_of_beq_false hzero
  have hquotient : value (.finite s m e) / value (.finite t n f) =
      signed (s != t) ((m * 2 ^ (e - f).toNat : Nat) / (n * 2 ^ (f - e).toNat : Nat)) := by
    rw [value, value, signed_div_signed, mul_div_mul_comm, ← zpow_sub₀ two_ne_zero, two_zpow, neg_sub,
      Nat.cast_mul, Nat.cast_mul, mul_div_mul_comm]
  rw [hquotient, div, if_neg hn]
  exact ofSize_round _ _ (Nat.mul_pos (Nat.pos_of_ne_zero hn) (Nat.two_pow_pos _))

/-- The remainder of finite values is finite, for it is not larger than the dividend. -/
theorem isFinite_rem {x y : Double} (hx : x.IsFinite) (hy : y.IsFinite) (hzero : y.isZero = false) :
    (x.rem y).IsFinite := by
  obtain ⟨s, m, e, rfl⟩ := hx.eq_finite
  obtain ⟨t, n, f, rfl⟩ := hy.eq_finite
  rw [rem, if_neg (ne_of_beq_false hzero)]
  refine (ofSize_scale ..).isFinite ?_
  rw [abs_signed, abs_of_nonneg (by positivity)]
  have hle : (m * 2 ^ (e - min e f).toNat) % (n * 2 ^ (f - min e f).toNat) ≤ m * 2 ^ (e - min e f).toNat :=
    Nat.mod_le _ _
  calc _ ≤ ((m * 2 ^ (e - min e f).toNat : Nat) : ℚ) * 2 ^ min e f := by gcongr
    _ = m * 2 ^ e := cast_shift_mul_zpow m (min_le_left e f)
    _ = |value (.finite s m e)| := (abs_value_finite s m e).symm
    _ < overflowBound := hx.abs_value_lt

/-! ### Operations on special values -/

theorem IsSpecial.neg {x : Double} (h : x.IsSpecial) : x.neg.IsSpecial := by
  cases x with
  | finite s m e => exact h.elim
  | nan | infinite => trivial

theorem isSpecial_add {x y : Double} (h : x.IsSpecial ∨ y.IsSpecial) : (x.add y).IsSpecial := by
  cases x with
  | nan => trivial
  | infinite s =>
    cases y with
    | nan | finite => trivial
    | infinite t =>
      rw [add]
      split <;> trivial
  | finite s m e =>
    cases y with
    | nan | infinite => trivial
    | finite t n f => exact (or_self_iff.mp h).elim

theorem isSpecial_sub {x y : Double} (h : x.IsSpecial ∨ y.IsSpecial) : (x.sub y).IsSpecial :=
  isSpecial_add (h.imp_right IsSpecial.neg)

theorem isSpecial_mul {x y : Double} (h : x.IsSpecial ∨ y.IsSpecial) : (x.mul y).IsSpecial := by
  cases x with
  | nan => trivial
  | infinite s =>
    cases y with
    | nan | infinite => trivial
    | finite t n f =>
      rw [mul]
      split <;> trivial
  | finite s m e =>
    cases y with
    | nan => trivial
    | infinite t =>
      rw [mul]
      split <;> trivial
    | finite t n f => exact (or_self_iff.mp h).elim

theorem isSpecial_div {x y : Double} (h : x.IsSpecial ∨ y = .nan) : (x.div y).IsSpecial := by
  cases x with
  | nan => trivial
  | infinite s => cases y <;> trivial
  | finite s m e =>
    obtain h | rfl := h
    · exact h.elim
    · trivial

theorem isFinite_div_infinite {x : Double} (h : x.IsFinite) (t : Bool) : (x.div (.infinite t)).IsFinite := by
  obtain ⟨s, m, e, rfl⟩ := h.eq_finite
  exact ⟨by decide, by decide, by decide⟩

/-! ### Fractions of integers -/

/-- A fraction of integers has a double exactly when it is below the bound, and that is finite. -/
theorem ofRatio?_cases (a : Int) {b : Int} (hb : b ≠ 0) :
    ofRatio? a b = none ∧ overflowBound ≤ |(a / b : ℚ)| ∨
      ∃ x, ofRatio? a b = some x ∧ x.IsFinite ∧ |(a / b : ℚ)| < overflowBound := by
  have hround := ofSize_round (decide (a < 0) != decide (b < 0)) a.natAbs (Int.natAbs_pos.mpr hb)
  rw [← signed_div_signed, ← cast_eq_signed, ← cast_eq_signed] at hround
  rw [ofRatio?]
  obtain ⟨hinf, hbound⟩ | ⟨hfin, hbound⟩ := hround
  · rw [hinf]
    exact .inl ⟨rfl, hbound⟩
  · refine .inr ⟨_, ?_, hfin, hbound⟩
    split
    · rename_i hinf
      rw [hinf] at hfin
      exact hfin.elim
    · rfl

theorem ofInt?_cases (n : Int) :
    ofInt? n = none ∧ overflowBound ≤ |(n : ℚ)| ∨
      ∃ x, ofInt? n = some x ∧ x.IsFinite ∧ |(n : ℚ)| < overflowBound := by
  have h := ofRatio?_cases n Int.one_ne_zero
  rwa [Int.cast_one, div_one] at h

end Double

end Abacus
