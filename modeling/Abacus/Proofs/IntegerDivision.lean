import Abacus.Proofs.Integers

/-!
# Dividing integers

There are two ways to divide integers here. The remainder belongs to the division toward zero, so it
has the sign of the dividend, and floor division goes down. Each result is the only integer that fits
its description. The two agree as long as the quotient is exact or not negative. Otherwise floor
division has gone down by one more, and quotient and remainder make up the dividend less the divisor.
-/

namespace Abacus

/-- `r` is left over when `a` is divided by `b` toward zero. -/
structure LeftOver (a b r : Int) : Prop where
  lt : r.natAbs < b.natAbs
  dvd : b ∣ a - r
  sign : r = 0 ∨ r.sign = a.sign

/-- `q` is the quotient of `a` and `b`, rounded down. -/
structure RoundedDown (a b q : Int) : Prop where
  ofPos : 0 < b → q * b ≤ a ∧ a < (q + 1) * b
  ofNeg : b < 0 → (q + 1) * b < a ∧ a ≤ q * b

variable {a b : Int}

/-! ### Remainders -/

theorem leftOver_tmod (hb : b ≠ 0) : LeftOver a b (a.tmod b) where
  lt := by
    rw [Int.natAbs_tmod]
    exact Nat.mod_lt _ (Int.natAbs_pos.mpr hb)
  dvd := Int.dvd_self_sub_tmod
  sign := by
    by_cases h : b ∣ a
    · exact .inl (Int.dvd_iff_tmod_eq_zero.mp h)
    · exact .inr (by rw [Int.sign_tmod, if_neg h])

/-- Only one integer is left over. -/
theorem leftOver_iff (hb : b ≠ 0) {r : Int} : LeftOver a b r ↔ r = a.tmod b := by
  constructor
  · rintro ⟨hlt, ⟨q, hq⟩, hsign⟩
    have hside : 0 ≤ a ∧ 0 ≤ r ∨ a ≤ 0 ∧ r ≤ 0 := by
      rcases Int.lt_trichotomy a 0 with ha | ha | ha
      · simp only [Int.sign_eq_neg_one_of_neg ha, Int.sign_eq_neg_one_iff_neg] at hsign
        omega
      · simp only [ha, Int.sign_zero, Int.sign_eq_zero_iff_zero] at hsign
        omega
      · simp only [Int.sign_eq_one_of_pos ha, Int.sign_eq_one_iff_pos] at hsign
        omega
    rcases hside with ⟨ha, hr⟩ | ⟨ha, hr⟩
    · exact ((Int.tdiv_tmod_unique (q := q) ha hb).mpr ⟨by omega, hr, by omega⟩).2.symm
    · exact ((Int.tdiv_tmod_unique' (q := q) ha hb).mpr ⟨by omega, by omega, hr⟩).2.symm
  · rintro rfl
    exact leftOver_tmod hb

/-! ### Floors -/

theorem roundedDown_fdiv (a b : Int) : RoundedDown a b (a.fdiv b) := by
  have heq := Int.fdiv_mul_add_fmod a b
  have hmul : (a.fdiv b + 1) * b = a.fdiv b * b + b := by rw [Int.add_mul, Int.one_mul]
  constructor
  · intro hb
    have hnonneg := Int.fmod_nonneg_of_pos a hb
    have hlt := Int.fmod_lt_of_pos a hb
    omega
  · intro hb
    have hnonneg := Int.fmod_nonneg_of_pos (-a) (Int.neg_pos_of_neg hb)
    have hlt := Int.fmod_lt_of_pos (-a) (Int.neg_pos_of_neg hb)
    rw [Int.neg_fmod_neg] at hnonneg hlt
    omega

/-- Only one integer is the quotient rounded down. -/
theorem roundedDown_iff (hb : b ≠ 0) {q : Int} : RoundedDown a b q ↔ q = a.fdiv b := by
  constructor
  · rintro ⟨hpos, hneg⟩
    rw [Int.add_mul, Int.one_mul, Int.mul_comm q b] at hpos hneg
    rcases Int.lt_or_gt_of_ne hb with hb | hb
    · obtain ⟨hlt, hle⟩ := hneg hb
      exact ((Int.fdiv_fmod_unique' (r := a - b * q) hb).mpr ⟨by omega, by omega, by omega⟩).1.symm
    · obtain ⟨hle, hlt⟩ := hpos hb
      exact ((Int.fdiv_fmod_unique (r := a - b * q) hb).mpr ⟨by omega, by omega, by omega⟩).1.symm
  · rintro rfl
    exact roundedDown_fdiv a b

/-! ### Quotient and remainder together -/

/-- Quotient and remainder make up the dividend where the quotient is exact or not negative. -/
theorem fdiv_mul_add_tmod (hb : b ≠ 0) :
    a.fdiv b * b + a.tmod b = a - if b ∣ a ∨ a.sign = b.sign then 0 else b := by
  have heq := Int.fdiv_mul_add_fmod a b
  rw [Int.fmod_eq_tmod] at heq
  by_cases hdvd : b ∣ a
  · rw [if_pos hdvd] at heq
    rw [if_pos (.inl hdvd)]
    omega
  · have ha : a ≠ 0 := by
      rintro rfl
      exact hdvd (Int.dvd_zero b)
    rw [if_neg hdvd] at heq
    simp only [hdvd, false_or]
    rcases Int.lt_or_gt_of_ne ha with ha | ha <;> rcases Int.lt_or_gt_of_ne hb with hb | hb
    · rw [Int.sign_eq_neg_one_of_neg ha, Int.sign_eq_neg_one_of_neg hb, if_pos rfl]
      split_ifs at heq <;> omega
    · rw [Int.sign_eq_neg_one_of_neg ha, Int.sign_eq_one_of_pos hb, if_neg (by decide)]
      split_ifs at heq <;> omega
    · rw [Int.sign_eq_one_of_pos ha, Int.sign_eq_neg_one_of_neg hb, if_neg (by decide)]
      split_ifs at heq <;> omega
    · rw [Int.sign_eq_one_of_pos ha, Int.sign_eq_one_of_pos hb, if_pos rfl]
      split_ifs at heq <;> omega

/-! ### The operations -/

/-- **The remainder is that of the division toward zero, and floor division rounds down.** For integers `a`
and `b` with `b` not zero, the remainder is the only integer that is smaller than `b` in size, differs from
`a` by a multiple of `b`, and is zero or has the sign of `a`; and floor division gives the only integer that
is the quotient rounded down. The quotient times `b` and the remainder make up `a` if and only if `b` divides
`a` or the two have the same sign, and otherwise they make up `a - b`. For a divisor of zero both
operations give zero. -/
theorem remainder_and_floor_of_integers :
    (∀ a b : Int, b ≠ 0 → ∃ r q : Int,
      Number.rem (.int a) (.int b) = .ok (.int r) ∧ (∀ r', LeftOver a b r' ↔ r' = r) ∧
      Number.floorDiv (.int a) (.int b) = .ok (.int q) ∧ (∀ q', RoundedDown a b q' ↔ q' = q) ∧
      (q * b + r = a ↔ b ∣ a ∨ a.sign = b.sign) ∧
      (¬ (b ∣ a ∨ a.sign = b.sign) → q * b + r = a - b)) ∧
    ∀ a : Int, Number.rem (.int a) (.int 0) = .ok (.int 0) ∧ Number.floorDiv (.int a) (.int 0) = .ok (.int 0) := by
  refine ⟨fun a b hb => ⟨a.tmod b, a.fdiv b, ?_, fun r' => leftOver_iff hb, ?_, fun q' => roundedDown_iff hb, ?_, ?_⟩,
    fun a => ⟨rfl, rfl⟩⟩
  · exact Operator.apply_int (show Operator.modulo.onInts? a b = _ by rw [Operator.onInts?, if_neg hb])
  · exact Operator.apply_int (show Operator.floorDivide.onInts? a b = _ by rw [Operator.onInts?, if_neg hb])
  · rw [fdiv_mul_add_tmod hb]
    by_cases h : b ∣ a ∨ a.sign = b.sign
    · rw [if_pos h]
      exact iff_of_true (Int.sub_zero a) h
    · rw [if_neg h]
      exact iff_of_false (by omega) h
  · intro h
    rw [fdiv_mul_add_tmod hb, if_neg h]

/-- The remainder of `-7` and `2` is `-1`, and their quotient rounded down is `-4`: together they make up
`-9`. -/
theorem remainder_and_floor_of_negative_dividend :
    Number.rem (.int (-7)) (.int 2) = .ok (.int (-1)) ∧ (∀ r, LeftOver (-7) 2 r ↔ r = -1) ∧
      Number.floorDiv (.int (-7)) (.int 2) = .ok (.int (-4)) ∧ (∀ q, RoundedDown (-7) 2 q ↔ q = -4) ∧
      (-4) * 2 + (-1) = (-7 : Int) - 2 := by
  obtain ⟨r, q, hrem, hr, hfloor, hq, -, hsum⟩ := remainder_and_floor_of_integers.1 (-7) 2 (by decide)
  cases hrem
  cases hfloor
  exact ⟨rfl, hr, rfl, hq, hsum (by decide)⟩

end Abacus
