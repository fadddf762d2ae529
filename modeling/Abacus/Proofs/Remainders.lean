import Abacus.Proofs.Calculating

/-!
# When a calculation fails

A calculation should end with a value or with an error of the language. It does so with
one exception. A sum, product or quotient of doubles that is too large becomes an
infinity, with no error, and an infinity has no remainder: the failure of that remainder
is not an error of the language, and nothing catches it.

`DividesInfinity` says of a tree that its evaluation comes to the remainder of an
infinity. A calculation fails on the texts whose trees do so, on no others, and for this
reason only.
-/

namespace Abacus

/-! ### Doubles -/

namespace Double

/-- The exponent of the last place of the double nearest to `a / b`. -/
def lastPlace (a b : Nat) : Int := max (binaryExponent a b - (precision - 1 : Nat)) minExponent

/-- What rounding can give. A mantissa of zero comes only from fewer than one unit of the last place. -/
theorem round_cases (s : Bool) {a : Nat} (b : Nat) (ha : a ≠ 0) :
    round s a b = .infinite s ∨ ∃ m e, round s a b = .finite s m e ∧
      (m = 0 → roundDiv (a * 2 ^ (-lastPlace a b).toNat) (b * 2 ^ (lastPlace a b).toNat) = 0) := by
  rw [round, if_neg ha]
  dsimp only
  rw [← lastPlace]
  generalize roundDiv (a * 2 ^ (-lastPlace a b).toNat) (b * 2 ^ (lastPlace a b).toNat) = m
  by_cases hm : m = 2 ^ precision
  · rw [if_pos hm]
    dsimp only
    split
    · exact .inl rfl
    · exact .inr ⟨_, _, rfl, nofun⟩
  · rw [if_neg hm]
    dsimp only
    split
    · exact .inl rfl
    · exact .inr ⟨_, _, rfl, id⟩

theorem isNan_round (s : Bool) (a b : Nat) : (round s a b).isNan = false := by
  by_cases ha : a = 0
  · rw [round, if_pos ha]
    rfl
  · obtain h | ⟨m, e, h, -⟩ := round_cases s b ha <;> rw [h] <;> rfl

theorem isNan_scale (s : Bool) (a : Nat) (e : Int) : (scale s a e).isNan = false := isNan_round ..

theorem le_roundDiv (a b : Nat) : a / b ≤ roundDiv a b := by
  simp only [roundDiv]
  split_ifs <;> omega

theorem lastPlace_one_le (a : Nat) : (lastPlace a 1).toNat ≤ a.log2 := by
  have hexp : binaryExponent a 1 ≤ a.log2 := by
    simp only [binaryExponent, show Nat.log2 1 = 0 from rfl]
    split_ifs <;> omega
  rw [lastPlace, precision, minExponent]
  omega

/-- A natural other than zero has a double other than zero. -/
theorem isZero_round_one (s : Bool) {a : Nat} (ha : a ≠ 0) : (round s a 1).isZero = false := by
  -- The unit of the last place is at most the number itself.
  have hunit : 1 * 2 ^ (lastPlace a 1).toNat ≤ a * 2 ^ (-lastPlace a 1).toNat := by
    calc 1 * 2 ^ (lastPlace a 1).toNat = 2 ^ (lastPlace a 1).toNat := Nat.one_mul _
      _ ≤ 2 ^ a.log2 := Nat.pow_le_pow_right (by decide) (lastPlace_one_le a)
      _ ≤ a := Nat.log2_self_le ha
      _ ≤ a * 2 ^ (-lastPlace a 1).toNat := Nat.le_mul_of_pos_right a (Nat.two_pow_pos _)
  obtain h | ⟨m, e, h, hm⟩ := round_cases s 1 ha
  · rw [h]
    rfl
  · rw [h]
    refine beq_false_of_ne fun hzero => ?_
    have hdiv := Nat.div_pos hunit (Nat.mul_pos Nat.one_pos (Nat.two_pow_pos _))
    have hle := le_roundDiv (a * 2 ^ (-lastPlace a 1).toNat) (1 * 2 ^ (lastPlace a 1).toNat)
    rw [hm hzero] at hle
    omega

/-- The double of an integer is finite, and a zero only for zero. -/
theorem ofInt?_eq_some {n : Int} {x : Double} (h : ofInt? n = some x) :
    x.isNan = false ∧ (∀ s, x ≠ .infinite s) ∧ (n ≠ 0 → x.isZero = false) := by
  rw [ofInt?, ofRatio?] at h
  split at h
  · cases h
  · rename_i hinf
    cases h
    exact ⟨isNan_round .., fun s hs => hinf s hs, fun hn => isZero_round_one _ (Int.natAbs_ne_zero.mpr hn)⟩

/-- Between numbers, with a divisor other than zero, only infinities have no remainder. -/
theorem rem_eq_nan_iff {x y : Double} (hx : x.isNan = false) (hy : y.isNan = false) (hz : y.isZero = false) :
    x.rem y = .nan ↔ ∃ s, x = .infinite s := by
  cases x with
  | nan => cases hx
  | infinite s => cases y <;> simp [rem]
  | finite s m e =>
    cases y with
    | nan => cases hy
    | infinite t => simp [rem]
    | finite t n f =>
      have hn : n ≠ 0 := ne_of_beq_false hz
      rw [rem, if_neg hn]
      refine iff_of_false (fun h => ?_) nofun
      have hnan := congrArg isNan h
      rw [isNan_scale] at hnan
      cases hnan

end Double

/-! ### Numbers -/

namespace Number

/-- An infinity over a divisor that should have a remainder: a number other than zero that a
double can hold. -/
def LacksRemainder (a b : Number) : Prop :=
  ∃ s y, a = .double (.infinite s) ∧ b.isZero = false ∧ b.toDouble = .ok y ∧ y.isNan = false

/-- A number has a double of its own, or is an integer with one. -/
theorem toDouble_eq_ok {a : Number} {x : Double} (h : a.toDouble = .ok x) :
    a = .double x ∨ ∃ n, a = .int n ∧ Double.ofInt? n = some x := by
  cases a with
  | int n =>
    rw [toDouble] at h
    split at h
    · rename_i hx
      cases h
      exact .inr ⟨n, rfl, hx⟩
    · cases h
  | double x =>
    cases h
    exact .inl rfl

theorem eq_tooLarge_of_toDouble {a : Number} {fault : Fault} (h : a.toDouble = .error fault) :
    fault = .tooLarge := by
  cases a with
  | int n =>
    rw [toDouble] at h
    split at h <;> cases h
    rfl
  | double x => cases h

theorem eq_double_infinite_of_toDouble {a : Number} {s : Bool} (h : a.toDouble = .ok (.infinite s)) :
    a = .double (.infinite s) := by
  obtain h | ⟨n, -, hn⟩ := toDouble_eq_ok h
  · exact h
  · exact absurd rfl ((Double.ofInt?_eq_some hn).2.1 s)

theorem isZero_of_toDouble {b : Number} {y : Double} (hb : b.isZero = false) (h : b.toDouble = .ok y) :
    y.isZero = false := by
  obtain rfl | ⟨n, rfl, hn⟩ := toDouble_eq_ok h
  · exact hb
  · exact (Double.ofInt?_eq_some hn).2.2 (ne_of_beq_false hb)

/-- A combined operation has no result because an operand is too large, or because one of
its two parts has none. -/
theorem combine_eq_error {onInts : Int → Int → Except Fault Number}
    {onDoubles : Double → Double → Except Fault Number} {a b : Number} {fault : Fault}
    (h : combine onInts onDoubles a b = .error fault) :
    fault = .tooLarge ∨ (∃ m n, onInts m n = .error fault) ∨
      ∃ x y, a.toDouble = .ok x ∧ b.toDouble = .ok y ∧ onDoubles x y = .error fault := by
  have hdoubles (h : (do onDoubles (← a.toDouble) (← b.toDouble)) = .error fault) : fault = .tooLarge ∨
      ∃ x y, a.toDouble = .ok x ∧ b.toDouble = .ok y ∧ onDoubles x y = .error fault := by
    rw [Except.bind_eq_error_iff] at h
    obtain h | ⟨x, hx, h⟩ := h
    · exact .inl (eq_tooLarge_of_toDouble h)
    rw [Except.bind_eq_error_iff] at h
    obtain h | ⟨y, hy, h⟩ := h
    · exact .inl (eq_tooLarge_of_toDouble h)
    · exact .inr ⟨x, y, hx, hy, h⟩
  cases a with
  | double x => exact (hdoubles h).imp_right .inr
  | int m =>
    cases b with
    | double y => exact (hdoubles h).imp_right .inr
    | int n => exact .inr (.inl ⟨m, n, h⟩)

/-- The remainder of two doubles fails on an infinity only. -/
theorem remDoubles_eq_error_iff {x y : Double} {fault : Fault} (hz : y.isZero = false) :
    remDoubles x y = .error fault ↔ fault = .outOfDomain ∧ (∃ s, x = .infinite s) ∧ y.isNan = false := by
  rw [remDoubles]
  cases hx : x.isNan with
  | true =>
    cases x <;> cases hx
    simp [Double.rem]
  | false =>
    cases hy : y.isNan with
    | true =>
      cases y <;> cases hy
      cases x <;> simp [Double.rem]
    | false =>
      have hrem := Double.rem_eq_nan_iff hx hy hz
      split
      · rename_i hnan
        simp [hrem.mp hnan, eq_comm]
      · rename_i hnan
        simp only [reduceCtorEq, false_iff, not_and]
        exact fun _ hinf => absurd (hrem.mpr hinf) hnan

theorem rem_eq_error {a b : Number} {fault : Fault} (h : rem a b = .error fault) :
    fault = .tooLarge ∨ fault = .outOfDomain ∧ a.LacksRemainder b := by
  rw [rem] at h
  split at h
  · cases h
  · rename_i hzero
    have hzero : b.isZero = false := Bool.eq_false_iff.mpr hzero
    obtain rfl | ⟨m, n, h⟩ | ⟨x, y, hx, hy, h⟩ := combine_eq_error h
    · exact .inl rfl
    · cases h
    · obtain ⟨rfl, ⟨s, rfl⟩, hnan⟩ := (remDoubles_eq_error_iff (isZero_of_toDouble hzero hy)).mp h
      exact .inr ⟨rfl, s, y, eq_double_infinite_of_toDouble hx, hzero, hy, hnan⟩

theorem LacksRemainder.rem {a b : Number} (h : a.LacksRemainder b) : rem a b = .error .outOfDomain := by
  obtain ⟨s, y, rfl, hzero, hy, hnan⟩ := h
  rw [Number.rem, hzero]
  show (do remDoubles (← toDouble (.double (.infinite s))) (← b.toDouble)) = _
  rw [hy]
  exact (remDoubles_eq_error_iff (isZero_of_toDouble hzero hy)).mpr ⟨rfl, ⟨s, rfl⟩, hnan⟩

end Number

/-- Why an operator can have no result. -/
theorem Operator.apply_eq_error {op : Operator} {a b : Number} {fault : Number.Fault}
    (h : op.apply a b = .error fault) :
    fault = .tooLarge ∨ (op = .modulo ∧ fault = .outOfDomain ∧ a.LacksRemainder b) ∨ op = .floorDivide := by
  cases op with
  | modulo => exact (Number.rem_eq_error h).imp_right fun h => .inl ⟨rfl, h⟩
  | floorDivide => exact .inr (.inr rfl)
  | multiply | add | subtract =>
    obtain h | ⟨m, n, h⟩ | ⟨x, y, -, -, h⟩ := Number.combine_eq_error h
    · exact .inl h
    · cases h
    · cases h
  | divide =>
    simp only [Operator.apply, Number.div] at h
    split at h
    · cases h
    · obtain h | ⟨m, n, h⟩ | ⟨x, y, -, -, h⟩ := Number.combine_eq_error h
      · exact .inl h
      · rw [Number.divInts] at h
        split at h <;> cases h
        exact .inl rfl
      · cases h

/-! ### Trees -/

namespace Expr

/-- The evaluation of a tree, which goes from left to right, comes to the remainder of an
infinity. -/
inductive DividesInfinity : Expr → Prop
  | here {p d l r a b} : d.denoted? = some .modulo → l.eval = .ok a → r.eval = .ok b → a.LacksRemainder b →
      DividesInfinity (.binary p d l r)
  | operand {p e} : DividesInfinity e → DividesInfinity (.unary p .negate e)
  | left {p d l r} : DividesInfinity l → DividesInfinity (.binary p d l r)
  | right {p d l r a} : l.eval = .ok a → DividesInfinity r → DividesInfinity (.binary p d l r)

/-- Such an evaluation ends there. -/
theorem DividesInfinity.eval {e : Expr} (h : e.DividesInfinity) :
    ∃ d p, e.eval = .error (.arithmetic .outOfDomain d p) := by
  induction h with
  | @here p d l r a b hd hl hr hab =>
    refine ⟨d, p, ?_⟩
    rw [Expr.eval, hl, Except.ok_bind, hr, Except.ok_bind, hd]
    simp only [Operator.apply, hab.rem, Except.mapError_error]
  | operand _ ih =>
    obtain ⟨d, p, h⟩ := ih
    exact ⟨d, p, by rw [Expr.eval, h]; rfl⟩
  | left _ ih =>
    obtain ⟨d, p, h⟩ := ih
    exact ⟨d, p, by rw [Expr.eval, h]; rfl⟩
  | right hl _ ih =>
    obtain ⟨d, p, h⟩ := ih
    exact ⟨d, p, by rw [Expr.eval, hl, Except.ok_bind, h]; rfl⟩

/-- What can be wrong with the tree of a source text: a name, a result that is too large, or
the remainder of an infinity. -/
theorem Written.eval_fault {e : Expr} {fault : Machine.Fault} (hw : e.Written) (h : e.eval = .error fault) :
    (∃ name p, fault = .unknownName name p) ∨ (∃ op p, fault = .arithmetic .tooLarge (.operator op) p) ∨
      (∃ op p, fault = .arithmetic .outOfDomain (.operator op) p) ∧ e.DividesInfinity := by
  induction e with
  | number => cases h
  | identifier p name =>
    cases h
    exact .inl ⟨name, p, rfl⟩
  | unary p op e ih =>
    cases op with
    | other value => exact hw.elim
    | negate => exact (ih hw (eval_negate_eq_error h)).imp_right (.imp_right fun h => ⟨h.1, .operand h.2⟩)
  | binary p d l r ihl ihr =>
    obtain ⟨⟨op, rfl, hop⟩, hwl, hwr⟩ := hw
    obtain h | ⟨a, hl, h⟩ | ⟨a, b, hl, hr, h⟩ := eval_binary_eq_error h
    · exact (ihl hwl h).imp_right (.imp_right fun h => ⟨h.1, .left h.2⟩)
    · exact (ihr hwr h).imp_right (.imp_right fun h => ⟨h.1, .right hl h.2⟩)
    obtain ⟨h, -⟩ | ⟨op', f, ⟨⟩, hab, rfl⟩ := h
    · cases h
    obtain rfl | ⟨rfl, rfl, hlacks⟩ | hfloor := Operator.apply_eq_error hab
    · exact .inr (.inl ⟨op, p, rfl⟩)
    · exact .inr (.inr ⟨⟨.modulo, p, rfl⟩, .here rfl hl hr hlacks⟩)
    · exact absurd hfloor hop
  | foreign object => exact hw.elim

theorem Written.eval_eq_error {e : Expr} {fault : Machine.Fault} (hw : e.Written) (h : e.eval = .error fault) :
    (∃ err, Failure.ofMachine fault = .error err) ∨
      Failure.ofMachine fault = .outOfDomain ∧ e.DividesInfinity := by
  obtain ⟨name, p, rfl⟩ | ⟨op, p, rfl⟩ | ⟨⟨op, p, rfl⟩, hdiv⟩ := hw.eval_fault h
  · exact .inl ⟨_, rfl⟩
  · exact .inl ⟨_, rfl⟩
  · exact .inr ⟨rfl, hdiv⟩

end Expr

/-- **A calculation fails at the remainder of an infinity, and nowhere else.** Whatever the
options, every source text has a value or an error of the language, but for those whose tree
comes to the remainder of an infinity. -/
theorem calculation_fails_iff (o : Options) (source : String) (failure : Failure) :
    (Calculation.calculate o source).result = .error failure ↔
      failure = .outOfDomain ∧
        ∃ ts e, Scan.tokens source = .ok ts ∧ Parse.tree ts = .ok e ∧ e.DividesInfinity := by
  rw [result_calculate_eq_error]
  constructor
  · rintro ⟨hout, hne⟩
    obtain ⟨err, herr⟩ | ⟨ts, e, hts, he⟩ := outcome_cases source
    · rw [hout] at herr
      cases herr
      exact absurd rfl (hne err)
    · rw [outcome_of_tree hts he] at hout
      cases hv : e.eval with
      | ok v => rw [hv] at hout; cases hout
      | error fault =>
        rw [hv, Except.mapError_error, Except.error.injEq] at hout
        obtain ⟨err, herr⟩ | ⟨hdomain, hdiv⟩ := (written_of_tree hts he).eval_eq_error hv
        · exact absurd (hout.symm.trans herr) (hne err)
        · exact ⟨hout.symm.trans hdomain, ts, e, hts, he, hdiv⟩
  · rintro ⟨rfl, ts, e, hts, he, hdiv⟩
    obtain ⟨d, p, hv⟩ := hdiv.eval
    refine ⟨?_, nofun⟩
    rw [outcome_of_tree hts he, hv]
    rfl

/-- In `1…0/1*10%3`, with 308 zeros, the product is an infinity. -/
theorem calculation_fails_large_product : ∀ o : Options,
    (Calculation.calculate o (String.ofList
      ('1' :: List.replicate 308 '0' ++ ['/', '1', '*', '1', '0', '%', '3']))).result = .error .outOfDomain := by
  intro o
  let ts : List Token := [.ofLexeme (.number (.int (10 ^ 308))) 0, .ofLexeme (.operator (.operator .divide)) 309,
    .ofLexeme (.number (.int 1)) 310, .ofLexeme (.operator (.operator .multiply)) 311,
    .ofLexeme (.number (.int 10)) 312, .ofLexeme (.operator (.operator .modulo)) 314,
    .ofLexeme (.number (.int 3)) 315, .ofLexeme .endOfInput 316]
  let product : Expr := .binary 311 (.operator .multiply)
    (.binary 309 (.operator .divide) (.number 0 (.int (10 ^ 308))) (.number 310 (.int 1))) (.number 312 (.int 10))
  have hproduct : product.eval = .ok (.double (.infinite false)) := by decide +kernel
  have hlacks : Number.LacksRemainder (.double (.infinite false)) (.int 3) := ⟨false, _, rfl, rfl, rfl, rfl⟩
  refine (calculation_fails_iff o _ _).mpr ⟨rfl, ts, .binary 314 (.operator .modulo) product (.number 315 (.int 3)),
    ?_, by decide +kernel, .here rfl hproduct rfl hlacks⟩
  rw [Scan.tokens, String.toList_ofList]
  decide +kernel

end Abacus
