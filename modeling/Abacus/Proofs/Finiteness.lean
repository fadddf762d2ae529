import Abacus.Proofs.Overflow
import Abacus.Proofs.SourceErrors

/-!
# Finite values

An overflow is not an error, so the evaluation of a tree goes on with the infinity. Whether the value
of the whole tree is finite depends on what becomes of it on the way. `Escapes` follows it from where
it comes up. A tree has a finite value exactly if no overflow escapes.

The other results that are too large end the evaluation. `Reaches` says that an evaluation comes to an
operator. A result that is too large is reported at an operator exactly if the evaluation comes to it
with operands that it refuses.
-/

namespace Abacus

open Calculation

namespace Expr

/-! ### Overflows that escape -/

theorem eval_negate_eq_ok {p : Int} {e : Expr} {v : Number} (h : (unary p .negate e).eval = .ok v) :
    ∃ u, e.eval = .ok u ∧ v = u.neg := by
  rw [eval, Except.bind_eq_ok_iff] at h
  obtain ⟨u, hu, h⟩ := h
  cases h
  exact ⟨u, hu, rfl⟩

theorem eval_binary_eq_ok {p : Int} {op : Operator} {l r : Expr} {v : Number}
    (h : (binary p (.operator op) l r).eval = .ok v) :
    ∃ a b, l.eval = .ok a ∧ r.eval = .ok b ∧ op.apply a b = .ok v := by
  rw [eval, Except.bind_eq_ok_iff] at h
  obtain ⟨a, ha, h⟩ := h
  rw [Except.bind_eq_ok_iff] at h
  obtain ⟨b, hb, h⟩ := h
  refine ⟨a, b, ha, hb, ?_⟩
  cases hab : op.apply a b with
  | ok v' =>
    simp only [Datum.denoted?, hab] at h
    cases h
    rfl
  | error fault =>
    simp only [Datum.denoted?, hab] at h
    cases h

/-- An overflow gets through to the value of the tree. It gets through every operator, from the left
and from the right, with two exceptions: a division by zero takes no notice of the dividend, and a
division by an infinity has a finite result. -/
inductive Escapes : Expr → Prop
  | overflow {p d l r op a b q} : d.denoted? = some op → l.eval = .ok a → r.eval = .ok b → op.Overflows a b q →
      Escapes (.binary p d l r)
  | operand {p e} : Escapes e → Escapes (.unary p .negate e)
  | left {p d l r op b} : Escapes l → d.denoted? = some op → r.eval = .ok b → ¬ op.DividesByZero b →
      Escapes (.binary p d l r)
  | right {p d l r op} : Escapes r → d.denoted? = some op → op ≠ .divide → op ≠ .modulo → Escapes (.binary p d l r)
  | nan {p d l r} : Escapes r → r.eval = .ok (.double .nan) → Escapes (.binary p d l r)

theorem escapes_binary_iff {p : Int} {op : Operator} {l r : Expr} {a b : Number} (hl : l.eval = .ok a)
    (hr : r.eval = .ok b) (hla : l.Escapes ↔ a.IsSpecial) (hrb : r.Escapes ↔ b.IsSpecial) :
    (binary p (.operator op) l r).Escapes ↔ op.Escapes a b := by
  constructor
  · intro h
    cases h with
    | overflow hd hl' hr' hover =>
      cases hd
      cases hl.symm.trans hl'
      cases hr.symm.trans hr'
      exact .inl ⟨_, hover⟩
    | left h hd hr' hzero =>
      cases hd
      cases hr.symm.trans hr'
      exact .inr ⟨hzero, .inl (hla.mp h)⟩
    | right h hd hdivide hmodulo =>
      cases hd
      have hb := hrb.mp h
      exact .inr ⟨Operator.not_dividesByZero_of_isSpecial hb, .inr (.inr ⟨hb, hdivide, hmodulo⟩)⟩
    | nan h hnan =>
      cases hr.symm.trans hnan
      exact .inr ⟨Operator.not_dividesByZero_of_isSpecial trivial, .inr (.inl rfl)⟩
  · rintro (⟨q, hover⟩ | ⟨hzero, ha | rfl | ⟨hb, hdivide, hmodulo⟩⟩)
    · exact .overflow rfl hl hr hover
    · exact .left (hla.mpr ha) rfl hr hzero
    · exact .nan (hrb.mpr trivial) hr
    · exact .right (hrb.mpr hb) rfl hdivide hmodulo

theorem escapes_iff_of_cases {e : Expr} {v : Number} (h : v.IsFinite ∧ ¬ e.Escapes ∨ v.IsSpecial ∧ e.Escapes) :
    e.Escapes ↔ v.IsSpecial := by
  obtain ⟨hfinite, hescape⟩ | ⟨hspecial, hescape⟩ := h
  · exact iff_of_false hescape hfinite.not_isSpecial
  · exact iff_of_true hescape hspecial

/-- The value of a tree is finite, but for what escapes. -/
theorem Written.eval_cases {e : Expr} {v : Number} (hw : e.Written) (h : e.eval = .ok v) :
    v.IsFinite ∧ ¬ e.Escapes ∨ v.IsSpecial ∧ e.Escapes := by
  induction e generalizing v with
  | number p value =>
    obtain ⟨n, rfl, -⟩ := hw
    cases h
    exact .inl ⟨trivial, nofun⟩
  | identifier => cases h
  | foreign object => cases h
  | unary p op e ih =>
    cases op with
    | other value => exact hw.elim
    | negate =>
      obtain ⟨u, hu, rfl⟩ := eval_negate_eq_ok h
      obtain ⟨hfinite, hescape⟩ | ⟨hspecial, hescape⟩ := ih hw hu
      · refine .inl ⟨hfinite.neg, fun h => ?_⟩
        cases h with
        | operand h => exact hescape h
      · exact .inr ⟨hspecial.neg, .operand hescape⟩
  | binary p d l r ihl ihr =>
    obtain ⟨⟨op, rfl, hop⟩, hwl, hwr⟩ := hw
    obtain ⟨a, b, hl, hr, hab⟩ := eval_binary_eq_ok h
    have ha := ihl hwl hl
    have hb := ihr hwr hr
    have hescape : (binary p (.operator op) l r).Escapes ↔ op.Escapes a b :=
      escapes_binary_iff hl hr (escapes_iff_of_cases ha) (escapes_iff_of_cases hb)
    rw [hescape]
    exact Operator.apply_cases hop (ha.imp And.left And.left) (hb.imp And.left And.left) hab

/-! ### Results that are refused -/

/-- The evaluation of a tree, which goes from left to right, comes to the operator at `p`, with these
values for its operands. -/
inductive Reaches : Expr → Int → Operator → Number → Number → Prop
  | here {p d l r op a b} : d.denoted? = some op → l.eval = .ok a → r.eval = .ok b →
      Reaches (.binary p d l r) p op a b
  | operand {q e p op a b} : Reaches e p op a b → Reaches (.unary q .negate e) p op a b
  | left {q d l r p op a b} : Reaches l p op a b → Reaches (.binary q d l r) p op a b
  | right {q d l r c p op a b} : l.eval = .ok c → Reaches r p op a b → Reaches (.binary q d l r) p op a b

theorem Reaches.ne_floorDivide {e : Expr} {p : Int} {op : Operator} {a b : Number} (h : e.Reaches p op a b)
    (hw : e.Written) : op ≠ .floorDivide := by
  induction h with
  | here hd =>
    obtain ⟨⟨op', rfl, hop⟩, -⟩ := hw
    cases hd
    exact hop
  | operand _ ih => exact ih hw
  | left _ ih => exact ih hw.2.1
  | right _ _ ih => exact ih hw.2.2

/-- An evaluation ends where an operator refuses its operands. -/
theorem Reaches.eval_eq_tooLarge {e : Expr} {p : Int} {op : Operator} {a b : Number} (h : e.Reaches p op a b)
    (hw : e.Written) (hab : op.apply a b = .error .tooLarge) :
    e.eval = .error (.arithmetic .tooLarge (.operator op) p) := by
  induction h with
  | here hd hl hr =>
    obtain ⟨⟨op', rfl, -⟩, -⟩ := hw
    cases hd
    rw [eval, hl, Except.ok_bind, hr, Except.ok_bind]
    simp only [Datum.denoted?, hab, Except.mapError_error]
  | operand _ ih =>
    rw [eval, ih hw hab]
    rfl
  | left _ ih =>
    rw [eval, ih hw.2.1 hab]
    rfl
  | right hl _ ih =>
    rw [eval, hl, Except.ok_bind, ih hw.2.2 hab]
    rfl

/-- An evaluation ends with a result that is too large exactly where an operator refuses. -/
theorem Written.eval_eq_tooLarge_iff {e : Expr} {op : Operator} {p : Int} (hw : e.Written) :
    e.eval = .error (.arithmetic .tooLarge (.operator op) p) ↔ ∃ a b, e.Reaches p op a b ∧ op.Refuses a b := by
  constructor
  · intro h
    induction e with
    | number => cases h
    | identifier => cases h
    | foreign object => cases h
    | unary q sign e ih =>
      cases sign with
      | other value => exact hw.elim
      | negate =>
        obtain ⟨a, b, hreach, hrefuse⟩ := ih hw (eval_negate_eq_error h)
        exact ⟨a, b, .operand hreach, hrefuse⟩
    | binary q d l r ihl ihr =>
      obtain ⟨⟨op', rfl, hop⟩, hwl, hwr⟩ := hw
      obtain h | ⟨c, hl, h⟩ | ⟨a, b, hl, hr, h⟩ := eval_binary_eq_error h
      · obtain ⟨a, b, hreach, hrefuse⟩ := ihl hwl h
        exact ⟨a, b, .left hreach, hrefuse⟩
      · obtain ⟨a, b, hreach, hrefuse⟩ := ihr hwr h
        exact ⟨a, b, .right hl hreach, hrefuse⟩
      · obtain ⟨h, -⟩ | ⟨op'', fault, ⟨⟩, hab, ⟨⟩⟩ := h
        · cases h
        · exact ⟨a, b, .here rfl hl hr, (Operator.apply_eq_tooLarge_iff hop).mp hab⟩
  · rintro ⟨a, b, hreach, hrefuse⟩
    exact hreach.eval_eq_tooLarge hw ((Operator.apply_eq_tooLarge_iff (hreach.ne_floorDivide hw)).mpr hrefuse)

end Expr

/-! ### Source texts -/

/-- The calculation of a source text comes to an operator at an offset, with these values for its
operands. -/
def Calculation.Applies (source : String) (p : Int) (op : Operator) (a b : Number) : Prop :=
  ∃ ts e, Scan.tokens source = .ok ts ∧ Parse.tree ts = .ok e ∧ e.Reaches p op a b

/-- An overflow in the calculation of a source text gets through to its value. -/
def Calculation.Escapes (source : String) : Prop :=
  ∃ ts e, Scan.tokens source = .ok ts ∧ Parse.tree ts = .ok e ∧ e.Escapes

theorem escapes_iff {source : String} {ts : List Token} {e : Expr} (hts : Scan.tokens source = .ok ts)
    (he : Parse.tree ts = .ok e) : Escapes source ↔ e.Escapes := by
  constructor
  · rintro ⟨ts', e', hts', he', h⟩
    cases hts.symm.trans hts'
    cases he.symm.trans he'
    exact h
  · intro h
    exact ⟨ts, e, hts, he, h⟩

/-- A text with an error in its run has a tree. -/
theorem exists_tree_of_running {source : String} {err : Error} (h : outcome source = .error (.error err))
    (hfamily : err.cause.family = .running) : ∃ ts e, Scan.tokens source = .ok ts ∧ Parse.tree ts = .ok e := by
  rw [outcome] at h
  obtain h | ⟨ts, hts, h⟩ := Except.bind_eq_error_iff.mp h
  · obtain ⟨_, ⟨⟩, hscanning, -⟩ := ordinary_of_tokens h
    rw [hfamily] at hscanning
    cases hscanning
  obtain h | ⟨e, he, -⟩ := Except.bind_eq_error_iff.mp h
  · obtain ⟨_, ⟨⟩, hparsing, -⟩ := ordinary_of_tree hts h
    rw [hfamily] at hparsing
    cases hparsing
  · exact ⟨ts, e, calculation_tokens_eq_ok.mp hts, calculation_tree_eq_ok.mp he⟩

/-- A result that is too large is reported when the evaluation of the tree ends with it. -/
theorem reports_resultTooLarge_iff {o : Options} {source : String} {ts : List Token} {e : Expr} {op : Operator} {p : Int}
    (hts : Scan.tokens source = .ok ts) (he : Parse.tree ts = .ok e) :
    Reports o source (.resultTooLarge op.label) (some (.ofOffset p)) ↔
      e.eval = .error (.arithmetic .tooLarge (.operator op) p) := by
  rw [reports_iff, outcome_of_tree hts he]
  constructor
  · rintro ⟨err, herr, hcause, hplace⟩
    cases heval : e.eval with
    | ok v =>
      rw [heval] at herr
      cases herr
    | error fault =>
      rw [heval, Except.mapError_error, Except.error.injEq] at herr
      obtain ⟨name, p', rfl⟩ | ⟨op', p', rfl⟩ | ⟨⟨op', p', rfl⟩, -⟩ := (written_of_tree hts he).eval_fault heval
      · cases herr
        cases hcause
      · cases herr
        cases Operator.label_injective (Cause.resultTooLarge.inj hcause)
        cases hplace
        rfl
      · cases herr
  · intro h
    rw [h]
    exact ⟨_, rfl, rfl, rfl⟩

/-- **A result too large for a double is an error only where an integer is rounded.** The value of a
source text is finite, unless an overflow gets through to it; then it is an infinity or not a number.
For an overflow of doubles is no error: the operator gives an infinity with the sign of the exact
result. What is reported as too large, at its operator, is an integer that meets a double, or a
quotient of integers, from the bound on. -/
theorem finite_unless_overflow (o : Options) (source : String) :
    (∀ v, Yields o source v → v.IsFinite ∧ ¬ Escapes source ∨ v.IsSpecial ∧ Escapes source) ∧
    (∀ op a b q, Operator.Overflows op a b q → op.apply a b = .ok (.double (.infinite (decide (q < 0))))) ∧
    ∀ op p, Reports o source (.resultTooLarge op.label) (some (.ofOffset p)) ↔
      ∃ a b, Applies source p op a b ∧ op.Refuses a b := by
  refine ⟨fun v hv => ?_, fun op a b q hover => hover.apply_eq, fun op p => ⟨fun hreports => ?_, ?_⟩⟩
  · have hout := yields_iff.mp hv
    obtain ⟨err, herr⟩ | ⟨ts, e, hts, he⟩ := outcome_cases source
    · rw [hout] at herr
      cases herr
    rw [outcome_of_tree hts he] at hout
    cases heval : e.eval with
    | error fault =>
      rw [heval] at hout
      cases hout
    | ok u =>
      rw [heval] at hout
      cases hout
      rw [escapes_iff hts he]
      exact (written_of_tree hts he).eval_cases heval
  · obtain ⟨err, hout, hcause, -⟩ := reports_iff.mp hreports
    have hfamily : err.cause.family = .running := by rw [hcause, Cause.family]
    obtain ⟨ts, e, hts, he⟩ := exists_tree_of_running hout hfamily
    have heval := (reports_resultTooLarge_iff hts he).mp hreports
    obtain ⟨a, b, hreach, hrefuse⟩ := (written_of_tree hts he).eval_eq_tooLarge_iff.mp heval
    exact ⟨a, b, ⟨ts, e, hts, he, hreach⟩, hrefuse⟩
  · rintro ⟨a, b, ⟨ts, e, hts, he, hreach⟩, hrefuse⟩
    have heval := (written_of_tree hts he).eval_eq_tooLarge_iff.mpr ⟨a, b, hreach, hrefuse⟩
    exact (reports_resultTooLarge_iff hts he).mpr heval

/-- The value of `1…0/1*10`, with 308 zeros, is an infinity, so an overflow leads to it. -/
theorem finite_unless_overflow_large_product : ∀ o : Options,
    Yields o (String.ofList ('1' :: List.replicate 308 '0' ++ ['/', '1', '*', '1', '0'])) (.double (.infinite false)) ∧
      Escapes (String.ofList ('1' :: List.replicate 308 '0' ++ ['/', '1', '*', '1', '0'])) := by
  intro o
  let ts : List Token := [.ofLexeme (.number (.int (10 ^ 308))) 0, .ofLexeme (.operator (.operator .divide)) 309,
    .ofLexeme (.number (.int 1)) 310, .ofLexeme (.operator (.operator .multiply)) 311,
    .ofLexeme (.number (.int 10)) 312, .ofLexeme .endOfInput 314]
  let e : Expr := .binary 311 (.operator .multiply)
    (.binary 309 (.operator .divide) (.number 0 (.int (10 ^ 308))) (.number 310 (.int 1))) (.number 312 (.int 10))
  have hts : Scan.tokens (String.ofList ('1' :: List.replicate 308 '0' ++ ['/', '1', '*', '1', '0'])) = .ok ts := by
    rw [Scan.tokens, String.toList_ofList]
    decide +kernel
  have he : Parse.tree ts = .ok e := by decide +kernel
  have heval : e.eval = .ok (.double (.infinite false)) := by decide +kernel
  have hv := (yields_iff (o := o)).mpr ((outcome_of_tree hts he).trans (congrArg _ heval))
  obtain ⟨h, -⟩ | ⟨-, hescape⟩ := (finite_unless_overflow o _).1 _ hv
  · exact h.elim
  · exact ⟨hv, hescape⟩

end Abacus
