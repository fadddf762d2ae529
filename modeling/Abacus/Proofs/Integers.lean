import Abacus.Proofs.Calculating

/-!
# Exact arithmetic

A calculator with integers and doubles could leave the integers on the way without a word, or
give up where a number does not fit a double. With integers and without division it does
neither. Negation, sums, differences, products, remainders and floor division stay in the
integers, have a result for all operands, and are exact whatever the size of the operands. So a
tree that holds nothing else has a value in the integers, and that is what its code computes; and
so does a source text that writes nothing else.
-/

namespace Abacus

open Calculation

/-! ### In the integers -/

/-- What an operator makes of two integers. The remainder belongs to the division toward zero,
and floor division goes down; both are zero for a divisor of zero. The other division leaves the
integers. -/
def Operator.onInts? : Operator → Int → Int → Option Int
  | .add, m, n => some (m + n)
  | .subtract, m, n => some (m - n)
  | .multiply, m, n => some (m * n)
  | .modulo, m, n => some (if n = 0 then 0 else m.tmod n)
  | .floorDivide, m, n => some (if n = 0 then 0 else m.fdiv n)
  | .divide, _, _ => none

/-- The value of a tree in the integers, if it has one. -/
def Expr.intValue? : Expr → Option Int
  | .number _ (.int n) => some n
  | .unary _ .negate e => e.intValue?.map fun n => -n
  | .binary _ d l r => do (← d.denoted?).onInts? (← l.intValue?) (← r.intValue?)
  | _ => none

/-- A lexeme of integer arithmetic: no name, no double, and no operator but those that stay in the
integers. -/
def Lexeme.Integral : Lexeme → Prop
  | .number v => ∃ n, v = .int n
  | .operator d => ∃ op, d.denoted? = some op ∧ op ≠ .divide
  | .endOfInput | .openParen | .closeParen => True
  | .identifier _ | .other _ => False

/-! ### Operators -/

/-- There are only six operators to be told apart. -/
theorem Operator.injective_of_forall {f : Operator → String} (h : ∀ a ∈ all, ∀ b ∈ all, f a = f b → a = b) :
    Function.Injective f := by
  have hmem (op : Operator) : op ∈ all := by cases op <;> decide
  exact fun a b => h a (hmem a) b (hmem b)

theorem Operator.exists_onInts? {op : Operator} (h : op ≠ .divide) (m n : Int) : ∃ k, op.onInts? m n = some k := by
  cases op with
  | divide => exact absurd rfl h
  | add | subtract | multiply | modulo | floorDivide => exact ⟨_, rfl⟩

/-- The remainder that is taken from absolute values and given the sign of the dividend is the one that
belongs to the division toward zero. -/
theorem Number.remInts_eq_tmod (m n : Int) : remInts m n = m.tmod n := by
  have hdivisor : m.tmod n.natAbs = m.tmod n := by
    rcases Int.le_total 0 n with hn | hn
    · rw [Int.natAbs_of_nonneg hn]
    · rw [Int.ofNat_natAbs_of_nonpos hn, Int.tmod_neg]
  have hfmod : Int.fmod m.natAbs n.natAbs = Int.tmod m.natAbs n.natAbs :=
    Int.fmod_eq_tmod_of_nonneg (Int.natCast_nonneg _) (Int.natCast_nonneg _)
  simp only [remInts, hfmod]
  split
  next hm => rw [Int.ofNat_natAbs_of_nonpos (Int.le_of_lt hm), Int.neg_tmod, Int.neg_neg, hdivisor]
  next hm => rw [Int.natAbs_of_nonneg (Int.not_lt.mp hm), hdivisor]

/-- On integers an operator does what it does in the integers. -/
theorem Operator.apply_int {op : Operator} {m n k : Int} (h : op.onInts? m n = some k) :
    op.apply (.int m) (.int n) = .ok (.int k) := by
  cases op with
  | divide => cases h
  | add | subtract | multiply =>
    cases h
    rfl
  | modulo | floorDivide =>
    cases h
    by_cases hn : n = 0
    · subst hn
      rfl
    · have hzero : Number.isZero (.int n) = false := by simpa [Number.isZero] using hn
      simp only [Operator.apply, Number.rem, Number.remInts_eq_tmod, Number.floorDiv, hzero, Number.combine, if_neg hn]
      rfl

/-! ### Trees -/

namespace Expr

theorem intValue?_binary {p : Int} {d : Datum} {op : Operator} {l r : Expr} {m n : Int} (hd : d.denoted? = some op)
    (hl : l.intValue? = some m) (hr : r.intValue? = some n) : (binary p d l r).intValue? = op.onInts? m n := by
  simp [intValue?, hd, hl, hr]

/-- A tree of integer arithmetic has a value in the integers, and evaluates to it. -/
theorem Nodes.eval_eq_int {e : Expr} (h : e.Nodes Lexeme.Integral) :
    ∃ n, e.intValue? = some n ∧ e.eval = .ok (.int n) := by
  induction e with
  | number p v =>
    obtain ⟨n, rfl⟩ := h
    exact ⟨n, rfl, rfl⟩
  | identifier => exact h.elim
  | unary p op e ih =>
    cases op with
    | negate =>
      obtain ⟨n, hn, heval⟩ := ih h
      exact ⟨-n, by rw [intValue?, hn]; rfl, by rw [eval, heval]; rfl⟩
    | other value => exact h.elim
  | binary p d l r ihl ihr =>
    obtain ⟨⟨op, hop, hdiv⟩, hl, hr⟩ := h
    obtain ⟨m, hm, hevall⟩ := ihl hl
    obtain ⟨n, hn, hevalr⟩ := ihr hr
    obtain ⟨k, hk⟩ := Operator.exists_onInts? hdiv m n
    refine ⟨k, by rw [intValue?_binary hop hm hn, hk], ?_⟩
    rw [eval, hevall, hevalr]
    simp [hop, Operator.apply_int hk]
  | foreign object => exact h.elim

end Expr

/-- The result of the code of a tree that has a value. -/
theorem run_emit_of_eval {e : Expr} (h : e.Codable) {v : Number} (hv : e.eval = .ok v) :
    Machine.run e.emit.code = .ok v := by
  have hrun := run_of_delivers (delivers_emit h [])
  rw [hv] at hrun
  cases hcode : Machine.run e.emit.code with
  | ok v' =>
    rw [hcode] at hrun
    cases hrun
    rfl
  | error halt =>
    rw [hcode] at hrun
    cases hrun

/-! ### Source texts -/

/-- Of the lexemes of a source text, only names and divisions are not those of integer arithmetic. -/
theorem Lexeme.Written.integral {l : Lexeme} (h : l.Written) (hname : ∀ name, l ≠ .identifier name)
    (hdiv : l ≠ .operator (.operator .divide)) : l.Integral := by
  cases l with
  | number v =>
    obtain ⟨n, rfl, -⟩ := h
    exact ⟨n, rfl⟩
  | operator d =>
    obtain ⟨op, rfl, -⟩ := h
    refine ⟨op, rfl, ?_⟩
    rintro rfl
    exact hdiv rfl
  | identifier name => exact hname name rfl
  | other label => exact h
  | endOfInput | openParen | closeParen => trivial

/-- The tree of a source text that writes no name and no division. -/
theorem integral_of_source {source : String} {ts : List Token} {e : Expr} (hts : Scan.tokens source = .ok ts)
    (he : Parse.tree ts = .ok e) (hname : ∀ t ∈ ts, ∀ name, t.lexeme ≠ .identifier name)
    (hdiv : ∀ t ∈ ts, t.lexeme ≠ .operator (.operator .divide)) : e.Nodes Lexeme.Integral := by
  refine (Parse.tree_sound he).nodes fun t ht => ?_
  have hmem := Parse.mem_of_mem_body ht
  exact ((Scan.tokens_eq_ok_iff.mp hts).written t hmem).integral (hname t hmem) (hdiv t hmem)

/-- **Integer arithmetic is exact and never fails.** If a source text has a tree and writes no name
and no division, its calculation yields the value of the tree in the integers, whatever the
options. The same goes for the code of every tree of integers, negations and operators other than
that division, floor division included. -/
theorem integer_arithmetic_exact :
    (∀ (o : Options) (source : String) (ts : List Token) (e : Expr), Scan.tokens source = .ok ts →
      Parse.tree ts = .ok e → (∀ t ∈ ts, ∀ name, t.lexeme ≠ .identifier name) →
      (∀ t ∈ ts, t.lexeme ≠ .operator (.operator .divide)) →
      ∃ n, e.intValue? = some n ∧ Yields o source (.int n)) ∧
    ∀ e : Expr, e.Nodes Lexeme.Integral →
      ∃ n program, e.intValue? = some n ∧ e.code = .ok program ∧ Machine.run program = .ok (.int n) := by
  constructor
  · intro o source ts e hts he hname hdiv
    obtain ⟨n, hn, heval⟩ := (integral_of_source hts he hname hdiv).eval_eq_int
    refine ⟨n, hn, yields_iff.mpr ?_⟩
    rw [outcome_of_tree hts he, heval]
    rfl
  · intro e h
    obtain ⟨n, hn, heval⟩ := h.eval_eq_int
    exact ⟨n, e.emit.code, hn, h.codable.code_eq, run_emit_of_eval h.codable heval⟩

/-- The remainder in `5 mod 0-8` is zero. Floor division, which no text can write, takes `7` and `-2`
to `-4`. -/
theorem integer_arithmetic_exact_remainder_and_floor :
    Yields .standard "5 mod 0-8" (.int (-8)) ∧
      ∃ program, (Expr.binary 1 (.operator .floorDivide) (.number 0 (.int 7))
        (.unary 2 .negate (.number 3 (.int 2)))).code = .ok program ∧ Machine.run program = .ok (.int (-4)) := by
  constructor
  · have hts : Scan.tokens "5 mod 0-8" = .ok [.ofLexeme (.number (.int 5)) 0, .ofLexeme (.operator (.operator .modulo)) 2,
        .ofLexeme (.number (.int 0)) 6, .ofLexeme (.operator (.operator .subtract)) 7,
        .ofLexeme (.number (.int 8)) 8, .ofLexeme .endOfInput 9] := by decide +kernel
    have he : Parse.tree [.ofLexeme (.number (.int 5)) 0, .ofLexeme (.operator (.operator .modulo)) 2,
        .ofLexeme (.number (.int 0)) 6, .ofLexeme (.operator (.operator .subtract)) 7,
        .ofLexeme (.number (.int 8)) 8, .ofLexeme .endOfInput 9] =
          .ok (.binary 7 (.operator .subtract)
            (.binary 2 (.operator .modulo) (.number 0 (.int 5)) (.number 6 (.int 0))) (.number 8 (.int 8))) := by
      decide +kernel
    obtain ⟨n, hn, hyields⟩ :=
      integer_arithmetic_exact.1 .standard _ _ _ hts he (by simp [Token.ofLexeme]) (by simp [Token.ofLexeme])
    cases hn
    exact hyields
  · obtain ⟨n, program, hn, hcode, hrun⟩ := integer_arithmetic_exact.2
      (.binary 1 (.operator .floorDivide) (.number 0 (.int 7)) (.unary 2 .negate (.number 3 (.int 2))))
      ⟨⟨.floorDivide, rfl, by decide⟩, ⟨7, rfl⟩, ⟨2, rfl⟩⟩
    cases hn
    exact ⟨program, hcode, hrun⟩

end Abacus
