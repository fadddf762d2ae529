import Abacus.Proofs.Integers
import Abacus.Proofs.Magnitudes

/-!
# Results too large for a double

A result that is too large for a double should be an error. Some are: an integer that meets a
double is first rounded to one, and this is refused if the integer is too large; so is the quotient
of two integers. But where both operands are doubles already, a sum, difference, product or quotient
beyond the bound becomes an infinity without a word.

`Overflows` and `Refuses` tell the two apart, in exact arithmetic. `Spreads` says when an infinity, or
what is not a number, makes more of its kind. Together they tell of every operator and all operands
whether the result is finite.
-/

namespace Abacus

/-! ### Operands -/

namespace Number

/-- An integer, or a finite double. -/
def IsFinite : Number → Prop
  | .int _ => True
  | .double x => x.IsFinite

/-- An infinity, or what is not a number. -/
def IsSpecial : Number → Prop
  | .int _ => False
  | .double x => x.IsSpecial

/-- One of the operands is a double at least, so the operation is one of doubles. -/
def AnyDouble : Number → Number → Prop
  | .int _, .int _ => False
  | _, _ => True

theorem combine_of_anyDouble {onInts : Int → Int → Except Fault Number}
    {onDoubles : Double → Double → Except Fault Number} {a b : Number} (h : AnyDouble a b) :
    combine onInts onDoubles a b = (do onDoubles (← a.toDouble) (← b.toDouble)) := by
  cases a with
  | double x => rfl
  | int m =>
    cases b with
    | double y => rfl
    | int n => exact h.elim

theorem IsFinite.neg {a : Number} (h : a.IsFinite) : a.neg.IsFinite := by
  cases a with
  | int n => trivial
  | double x => exact Double.IsFinite.neg h

theorem IsSpecial.neg {a : Number} (h : a.IsSpecial) : a.neg.IsSpecial := by
  cases a with
  | int n => exact h.elim
  | double x => exact Double.IsSpecial.neg h

theorem IsSpecial.of_toDouble {a : Number} {x : Double} (h : a.IsSpecial) (hx : a.toDouble = .ok x) : x.IsSpecial := by
  cases a with
  | int n => exact h.elim
  | double y =>
    cases hx
    exact h

theorem IsFinite.not_isSpecial {a : Number} (h : a.IsFinite) : ¬ a.IsSpecial := by
  intro hspecial
  cases a with
  | int n => exact hspecial
  | double x =>
    cases x with
    | finite s m e => exact hspecial
    | nan | infinite => exact h

theorem IsSpecial.isZero {a : Number} (h : a.IsSpecial) : a.isZero = false := by
  cases a with
  | int n => exact h.elim
  | double x =>
    cases x with
    | finite s m e => exact h.elim
    | nan | infinite => rfl

theorem IsSpecial.eq_infinite {a : Number} (h : a.IsSpecial) (hnan : a ≠ .double .nan) :
    ∃ t, a = .double (.infinite t) := by
  cases a with
  | int n => exact h.elim
  | double x =>
    cases x with
    | nan => exact absurd rfl hnan
    | infinite t => exact ⟨t, rfl⟩
    | finite s m e => exact h.elim

/-- Rounding a finite number to a double gives a finite one. -/
theorem IsFinite.of_toDouble {a : Number} {x : Double} (h : a.IsFinite) (hx : a.toDouble = .ok x) : x.IsFinite := by
  obtain rfl | ⟨n, rfl, hn⟩ := toDouble_eq_ok hx
  · exact h
  · obtain ⟨hnone, -⟩ | ⟨y, hy, hfin, -⟩ := Double.ofInt?_cases n
    · rw [hnone] at hn
      cases hn
    · rw [hy] at hn
      cases hn
      exact hfin

theorem toDouble_eq_tooLarge_iff {a : Number} :
    a.toDouble = .error .tooLarge ↔ ∃ n : Int, a = .int n ∧ Double.overflowBound ≤ |(n : ℚ)| := by
  cases a with
  | double x =>
    constructor
    · intro h
      cases h
    · rintro ⟨n, h, -⟩
      cases h
  | int n =>
    rw [toDouble]
    obtain ⟨hnone, hbound⟩ | ⟨y, hy, -, hbound⟩ := Double.ofInt?_cases n
    · rw [hnone]
      exact iff_of_true rfl ⟨n, rfl, hbound⟩
    · rw [hy]
      refine iff_of_false (by simp) ?_
      rintro ⟨_, ⟨⟩, h⟩
      exact absurd h hbound.not_ge

end Number

/-! ### Operators -/

namespace Operator

open Number (AnyDouble)

/-- A division by zero, which gives zero whatever is divided. -/
def DividesByZero (op : Operator) (b : Number) : Prop :=
  (op = .divide ∨ op = .modulo ∨ op = .floorDivide) ∧ b.isZero = true

/-- What an operator makes of two doubles. -/
def onDoubles : Operator → Double → Double → Except Number.Fault Number
  | .add, x, y => .ok (.double (x.add y))
  | .subtract, x, y => .ok (.double (x.sub y))
  | .multiply, x, y => .ok (.double (x.mul y))
  | .divide, x, y => .ok (.double (x.div y))
  | .modulo, x, y => Number.remDoubles x y
  | .floorDivide, x, y => Number.floorDouble (x.div y)

/-- The exact result of an operator that rounds. A remainder needs no rounding. -/
def onRationals? : Operator → ℚ → ℚ → Option ℚ
  | .add, x, y => some (x + y)
  | .subtract, x, y => some (x - y)
  | .multiply, x, y => some (x * y)
  | .divide, x, y => some (x / y)
  | .modulo, _, _ | .floorDivide, _, _ => none

/-- Both operands are finite and go to an operation of doubles, but its exact result is too large
for a double. -/
def Overflows (op : Operator) (a b : Number) (q : ℚ) : Prop :=
  AnyDouble a b ∧ a.IsFinite ∧ b.IsFinite ∧ ¬ op.DividesByZero b ∧
    ∃ x y, a.toDouble = .ok x ∧ b.toDouble = .ok y ∧ op.onRationals? x.value y.value = some q ∧
      Double.overflowBound ≤ |q|

/-- An integer beside a double is too large for a double, or a quotient of integers is. -/
def Refuses (op : Operator) (a b : Number) : Prop :=
  (AnyDouble a b ∧ ¬ op.DividesByZero b ∧ ∃ n : Int, (a = .int n ∨ b = .int n) ∧ Double.overflowBound ≤ |(n : ℚ)|) ∨
    op = .divide ∧ ∃ m n : Int, a = .int m ∧ b = .int n ∧ Double.overflowBound ≤ |(m / n : ℚ)|

/-- An operand is special, and so is the result. An infinity as a divisor does not count, and over a
zero nothing does. -/
def Spreads (op : Operator) (a b : Number) : Prop :=
  ¬ op.DividesByZero b ∧ (a.IsSpecial ∨ b = .double .nan ∨ b.IsSpecial ∧ op ≠ .divide ∧ op ≠ .modulo)

/-- The result is not finite: it is an overflow, or special because of an operand. -/
def Escapes (op : Operator) (a b : Number) : Prop := (∃ q, op.Overflows a b q) ∨ op.Spreads a b

theorem apply_of_dividesByZero {op : Operator} {b : Number} (h : op.DividesByZero b) (a : Number) :
    op.apply a b = .ok (.int 0) := by
  obtain ⟨rfl | rfl | rfl, hzero⟩ := h
  · exact if_pos hzero
  · exact if_pos hzero
  · exact if_pos hzero

theorem apply_of_anyDouble {op : Operator} {a b : Number} (hany : AnyDouble a b) (hzero : ¬ op.DividesByZero b) :
    op.apply a b = (do op.onDoubles (← a.toDouble) (← b.toDouble)) := by
  cases op with
  | add | subtract | multiply => exact Number.combine_of_anyDouble hany
  | divide =>
    have hb : ¬ b.isZero = true := fun h => hzero ⟨.inl rfl, h⟩
    exact (if_neg hb).trans (Number.combine_of_anyDouble hany)
  | modulo =>
    have hb : ¬ b.isZero = true := fun h => hzero ⟨.inr (.inl rfl), h⟩
    exact (if_neg hb).trans (Number.combine_of_anyDouble hany)
  | floorDivide =>
    have hb : ¬ b.isZero = true := fun h => hzero ⟨.inr (.inr rfl), h⟩
    exact (if_neg hb).trans (Number.combine_of_anyDouble hany)

theorem not_dividesByZero_of_isSpecial {op : Operator} {b : Number} (h : b.IsSpecial) : ¬ op.DividesByZero b := by
  rintro ⟨-, hzero⟩
  rw [h.isZero] at hzero
  cases hzero

theorem isZero_of_not_dividesByZero {op : Operator} {b : Number} (h : ¬ op.DividesByZero b)
    (hop : op = .divide ∨ op = .modulo) : b.isZero = false :=
  Bool.eq_false_iff.mpr fun hzero => h ⟨hop.imp_right .inl, hzero⟩

/-- Two finite doubles give a double of the size of the exact result, or a finite remainder. -/
theorem onDoubles_eq_ok {op : Operator} {x y : Double} (hop : op ≠ .floorDivide) (hx : x.IsFinite) (hy : y.IsFinite)
    (hzero : op = .divide ∨ op = .modulo → y.isZero = false) :
    ∃ z, op.onDoubles x y = .ok (.double z) ∧ (∀ q, op.onRationals? x.value y.value = some q → z.OfSize q) ∧
      (op.onRationals? x.value y.value = none → z.IsFinite) := by
  cases op with
  | floorDivide => exact absurd rfl hop
  | add => exact ⟨_, rfl, fun q hq => Option.some.inj hq ▸ Double.ofSize_add hx hy, nofun⟩
  | subtract => exact ⟨_, rfl, fun q hq => Option.some.inj hq ▸ Double.ofSize_sub hx hy, nofun⟩
  | multiply => exact ⟨_, rfl, fun q hq => Option.some.inj hq ▸ Double.ofSize_mul hx hy, nofun⟩
  | divide => exact ⟨_, rfl, fun q hq => Option.some.inj hq ▸ Double.ofSize_div hx hy (hzero (.inl rfl)), nofun⟩
  | modulo =>
    have hfinite := Double.isFinite_rem hx hy (hzero (.inr rfl))
    refine ⟨x.rem y, ?_, nofun, fun _ => hfinite⟩
    rw [onDoubles, Number.remDoubles]
    split
    · rename_i hnan
      rw [hnan] at hfinite
      exact hfinite.elim
    · rfl

theorem onDoubles_ne_tooLarge {op : Operator} (hop : op ≠ .floorDivide) (x y : Double) :
    op.onDoubles x y ≠ .error .tooLarge := by
  intro h
  cases op with
  | floorDivide => exact absurd rfl hop
  | add | subtract | multiply | divide => cases h
  | modulo =>
    rw [onDoubles, Number.remDoubles] at h
    split at h
    · split at h <;> cases h
    · cases h

/-- An overflow is an infinity, with the sign of the exact result. -/
theorem Overflows.apply_eq {op : Operator} {a b : Number} {q : ℚ} (h : op.Overflows a b q) :
    op.apply a b = .ok (.double (.infinite (decide (q < 0)))) := by
  obtain ⟨hany, ha, hb, hzero, x, y, hx, hy, hq, hbound⟩ := h
  have hop : op ≠ .floorDivide := by
    rintro rfl
    cases hq
  obtain ⟨z, hz, hsize, -⟩ := onDoubles_eq_ok hop (ha.of_toDouble hx) (hb.of_toDouble hy)
    fun hop => Number.isZero_of_toDouble (isZero_of_not_dividesByZero hzero hop) hy
  rw [apply_of_anyDouble hany hzero, hx, Except.ok_bind, hy, Except.ok_bind, hz]
  obtain ⟨rfl, -⟩ | ⟨-, hlt⟩ := hsize q hq
  · rfl
  · exact absurd hbound hlt.not_ge

/-! ### Integers -/

theorem eq_int_of_not_anyDouble {a b : Number} (h : ¬ AnyDouble a b) : ∃ m n : Int, a = .int m ∧ b = .int n := by
  cases a with
  | double x => exact absurd trivial h
  | int m =>
    cases b with
    | double y => exact absurd trivial h
    | int n => exact ⟨m, n, rfl, rfl⟩

/-- What an operator makes of integers is finite, but for a quotient that is too large and refused. -/
theorem apply_int_cases {op : Operator} (m : Int) {n : Int} (hzero : ¬ op.DividesByZero (.int n)) :
    (op.apply (.int m) (.int n) = .error .tooLarge ∧ op = .divide ∧ Double.overflowBound ≤ |(m / n : ℚ)|) ∨
      ∃ v, op.apply (.int m) (.int n) = .ok v ∧ v.IsFinite ∧
        ¬ (op = .divide ∧ Double.overflowBound ≤ |(m / n : ℚ)|) := by
  by_cases hop : op = .divide
  · subst hop
    have hn : ¬ (Number.int n).isZero = true := fun h => hzero ⟨.inl rfl, h⟩
    have hdivide : Operator.divide.apply (.int m) (.int n) = Number.divInts m n := if_neg hn
    rw [hdivide, Number.divInts]
    obtain ⟨hnone, hbound⟩ | ⟨x, hx, hfinite, hbound⟩ := Double.ofRatio?_cases m (mt beq_iff_eq.mpr hn)
    · rw [hnone]
      exact .inl ⟨rfl, rfl, hbound⟩
    · rw [hx]
      exact .inr ⟨.double x, rfl, hfinite, fun h => absurd h.2 hbound.not_ge⟩
  · obtain ⟨k, hk⟩ := exists_onInts? hop m n
    exact .inr ⟨.int k, apply_int hk, trivial, fun h => hop h.1⟩

/-! ### All operands -/

/-- A result of finite operands is finite, unless it is an overflow. -/
theorem isFinite_or_overflows {op : Operator} {a b v : Number} (hop : op ≠ .floorDivide) (ha : a.IsFinite)
    (hb : b.IsFinite) (h : op.apply a b = .ok v) : v.IsFinite ∨ ∃ q, op.Overflows a b q := by
  by_cases hzero : op.DividesByZero b
  · rw [apply_of_dividesByZero hzero] at h
    cases h
    exact .inl trivial
  by_cases hany : AnyDouble a b
  · rw [apply_of_anyDouble hany hzero] at h
    obtain ⟨x, hx, h⟩ := Except.bind_eq_ok_iff.mp h
    obtain ⟨y, hy, h⟩ := Except.bind_eq_ok_iff.mp h
    obtain ⟨z, hz, hsize, hfinite⟩ := onDoubles_eq_ok hop (ha.of_toDouble hx) (hb.of_toDouble hy)
      fun hop => Number.isZero_of_toDouble (isZero_of_not_dividesByZero hzero hop) hy
    rw [hz] at h
    cases h
    cases hq : op.onRationals? x.value y.value with
    | none => exact .inl (hfinite hq)
    | some q =>
      obtain ⟨-, hbound⟩ | ⟨hfinite, -⟩ := hsize q hq
      · exact .inr ⟨q, hany, ha, hb, hzero, x, y, hx, hy, hq, hbound⟩
      · exact .inl hfinite
  · obtain ⟨m, n, rfl, rfl⟩ := eq_int_of_not_anyDouble hany
    obtain ⟨herror, -⟩ | ⟨u, hu, hfinite, -⟩ := apply_int_cases m hzero
    · rw [herror] at h
      cases h
    · rw [hu] at h
      cases h
      exact .inl hfinite

/-- A special operand makes the result special. -/
theorem isSpecial_of_onDoubles {op : Operator} {x y : Double} {v : Number} (hop : op ≠ .floorDivide)
    (hxy : x.IsSpecial ∨ y = .nan ∨ y.IsSpecial ∧ op ≠ .divide ∧ op ≠ .modulo) (h : op.onDoubles x y = .ok v) :
    v.IsSpecial := by
  have heither : x.IsSpecial ∨ y.IsSpecial := by
    obtain hx | rfl | ⟨hy, -⟩ := hxy
    · exact .inl hx
    · exact .inr trivial
    · exact .inr hy
  cases op with
  | floorDivide => exact absurd rfl hop
  | add =>
    cases h
    exact Double.isSpecial_add heither
  | subtract =>
    cases h
    exact Double.isSpecial_sub heither
  | multiply =>
    cases h
    exact Double.isSpecial_mul heither
  | divide =>
    cases h
    obtain hx | rfl | ⟨-, h, -⟩ := hxy
    · exact Double.isSpecial_div (.inl hx)
    · exact Double.isSpecial_div (.inr rfl)
    · exact absurd rfl h
  | modulo =>
    rw [onDoubles, Number.remDoubles] at h
    split at h
    · split at h
      · cases h
        trivial
      · cases h
    · rename_i hnan
      obtain hx | rfl | ⟨-, -, h⟩ := hxy
      · -- The remainder of a special double is not a number.
        cases x with
        | finite => exact hx.elim
        | nan | infinite => cases y <;> exact absurd rfl hnan
      · cases x <;> exact absurd rfl hnan
      · exact absurd rfl h

/-- A division by an infinity leads back to finite doubles. -/
theorem isFinite_of_onDoubles {op : Operator} {x : Double} {t : Bool} {v : Number} (hop : op = .divide ∨ op = .modulo)
    (hx : x.IsFinite) (h : op.onDoubles x (.infinite t) = .ok v) : v.IsFinite := by
  obtain rfl | rfl := hop
  · cases h
    exact Double.isFinite_div_infinite hx t
  · obtain ⟨s, m, e, rfl⟩ := hx.eq_finite
    cases h
    exact hx

theorem Spreads.isSpecial {op : Operator} {a b v : Number} (hspread : op.Spreads a b) (hop : op ≠ .floorDivide)
    (h : op.apply a b = .ok v) : v.IsSpecial := by
  obtain ⟨hzero, hab⟩ := hspread
  have hany : AnyDouble a b := by
    by_contra hints
    obtain ⟨m, n, rfl, rfl⟩ := eq_int_of_not_anyDouble hints
    obtain ha | hb | ⟨hb, -⟩ := hab
    · exact ha
    · cases hb
    · exact hb
  rw [apply_of_anyDouble hany hzero] at h
  obtain ⟨x, hx, h⟩ := Except.bind_eq_ok_iff.mp h
  obtain ⟨y, hy, h⟩ := Except.bind_eq_ok_iff.mp h
  refine isSpecial_of_onDoubles hop ?_ h
  obtain ha | rfl | ⟨hb, hop⟩ := hab
  · exact .inl (ha.of_toDouble hx)
  · cases hy
    exact .inr (.inl rfl)
  · exact .inr (.inr ⟨hb.of_toDouble hy, hop⟩)

theorem isFinite_of_apply_infinite {op : Operator} {a v : Number} {t : Bool} (hop : op = .divide ∨ op = .modulo)
    (ha : a.IsFinite) (h : op.apply a (.double (.infinite t)) = .ok v) : v.IsFinite := by
  have hany : AnyDouble a (.double (.infinite t)) := by cases a <;> trivial
  rw [apply_of_anyDouble hany (not_dividesByZero_of_isSpecial trivial)] at h
  obtain ⟨x, hx, h⟩ := Except.bind_eq_ok_iff.mp h
  exact isFinite_of_onDoubles hop (ha.of_toDouble hx) h

/-- The result of operands that are finite or special is one of these again, as `Escapes` says. -/
theorem apply_cases {op : Operator} {a b v : Number} (hop : op ≠ .floorDivide) (ha : a.IsFinite ∨ a.IsSpecial)
    (hb : b.IsFinite ∨ b.IsSpecial) (h : op.apply a b = .ok v) :
    v.IsFinite ∧ ¬ op.Escapes a b ∨ v.IsSpecial ∧ op.Escapes a b := by
  by_cases hspread : op.Spreads a b
  · exact .inr ⟨hspread.isSpecial hop h, .inr hspread⟩
  by_cases hfinite : a.IsFinite ∧ b.IsFinite
  · obtain hv | ⟨q, hover⟩ := isFinite_or_overflows hop hfinite.1 hfinite.2 h
    · refine .inl ⟨hv, not_or.mpr ⟨?_, hspread⟩⟩
      rintro ⟨q, hover⟩
      rw [hover.apply_eq] at h
      cases h
      exact hv
    · rw [hover.apply_eq] at h
      cases h
      exact .inr ⟨trivial, .inl ⟨q, hover⟩⟩
  · refine .inl ⟨?_, not_or.mpr ⟨fun ⟨q, _, ha, hb, _⟩ => hfinite ⟨ha, hb⟩, hspread⟩⟩
    by_cases hzero : op.DividesByZero b
    · rw [apply_of_dividesByZero hzero] at h
      cases h
      trivial
    · -- What is left is a division by an infinity.
      simp only [Spreads, hzero, not_false_eq_true, true_and, not_or, not_and_or, not_not] at hspread
      obtain ⟨hafinite, hnan, hdivision⟩ := hspread
      have ha := ha.resolve_right hafinite
      have hb := hb.resolve_left fun hb => hfinite ⟨ha, hb⟩
      obtain ⟨t, rfl⟩ := hb.eq_infinite hnan
      exact isFinite_of_apply_infinite (hdivision.resolve_left (not_not_intro hb)) ha h

/-- What an operator refuses as too large. -/
theorem apply_eq_tooLarge_iff {op : Operator} {a b : Number} (hop : op ≠ .floorDivide) :
    op.apply a b = .error .tooLarge ↔ op.Refuses a b := by
  by_cases hzero : op.DividesByZero b
  · rw [apply_of_dividesByZero hzero]
    refine iff_of_false (by simp) ?_
    rintro (⟨-, h, -⟩ | ⟨-, m, n, -, rfl, hbound⟩)
    · exact h hzero
    · have hn : n = 0 := eq_of_beq hzero.2
      rw [hn, Int.cast_zero, div_zero, abs_zero] at hbound
      exact absurd hbound Double.overflowBound_pos.not_ge
  by_cases hany : AnyDouble a b
  · rw [apply_of_anyDouble hany hzero]
    constructor
    · intro h
      obtain h | ⟨x, -, h⟩ := Except.bind_eq_error_iff.mp h
      · obtain ⟨n, hn, hbound⟩ := Number.toDouble_eq_tooLarge_iff.mp h
        exact .inl ⟨hany, hzero, n, .inl hn, hbound⟩
      obtain h | ⟨y, -, h⟩ := Except.bind_eq_error_iff.mp h
      · obtain ⟨n, hn, hbound⟩ := Number.toDouble_eq_tooLarge_iff.mp h
        exact .inl ⟨hany, hzero, n, .inr hn, hbound⟩
      · exact absurd h (onDoubles_ne_tooLarge hop x y)
    · rintro (⟨-, -, n, hn | hn, hbound⟩ | ⟨-, m, n, rfl, rfl, -⟩)
      · rw [Number.toDouble_eq_tooLarge_iff.mpr ⟨n, hn, hbound⟩]
        rfl
      · rw [Number.toDouble_eq_tooLarge_iff.mpr ⟨n, hn, hbound⟩]
        cases ha : a.toDouble with
        | ok x => rfl
        | error fault =>
          rw [Number.eq_tooLarge_of_toDouble ha]
          rfl
      · exact hany.elim
  · obtain ⟨m, n, rfl, rfl⟩ := eq_int_of_not_anyDouble hany
    obtain ⟨herror, hop, hbound⟩ | ⟨v, hv, -, hbound⟩ := apply_int_cases m hzero
    · exact iff_of_true herror (.inr ⟨hop, m, n, rfl, rfl, hbound⟩)
    · rw [hv]
      refine iff_of_false (by simp) ?_
      rintro (⟨h, -⟩ | ⟨hop, _, _, ⟨⟩, ⟨⟩, h⟩)
      · exact h
      · exact hbound ⟨hop, h⟩

theorem label_injective : Function.Injective label := injective_of_forall (by decide)

end Operator

end Abacus
