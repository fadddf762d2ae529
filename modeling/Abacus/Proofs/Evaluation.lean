import Abacus.Calculation
import Abacus.Proofs.Outcome

/-!
# The code of an expression computes its value

An expression has a meaning of its own, found by recursion on the tree: first the
left operand, then the right one, then the operator. The code of the expression, on
the other hand, is a flat list that a stack machine goes through step by step. The
two agree: the machine pushes the value of the expression on whatever stack it
started with, and where the expression has no value the machine stops for the same
reason at the same position.

Trees made by hand may hold nodes without code. `Codable` says, without a look at
the code, that a tree holds none.
-/

namespace Abacus

open Machine (Halt Stack exec run step)

namespace Expr

/-! ### The meaning of an expression -/

/-- The value of an expression. Both operands are evaluated before an operator is
looked up, so an unknown operator is the last thing to go wrong. -/
def eval : Expr → Except Machine.Fault Number
  | number _ value => .ok value
  | identifier p name => .error (.unknownName name p)
  | unary _ .negate e => do return (← e.eval).neg
  | unary p (.other value) _ => .error (.inapplicable value p)
  | binary p value l r => do
    let a ← l.eval
    let b ← r.eval
    match value.denoted? with
    | none => .error (.inapplicable value p)
    | some op => (op.apply a b).mapError fun fault => .arithmetic fault value p
  | foreign object => .error (.foreignInstr object)

theorem eval_negate_eq_error {p : Int} {e : Expr} {fault : Machine.Fault}
    (h : (unary p .negate e).eval = .error fault) : e.eval = .error fault := by
  rw [eval, Except.bind_eq_error_iff] at h
  obtain h | ⟨v, -, h⟩ := h
  · exact h
  · cases h

/-- What can go wrong with a binary operator, in the order in which it is met. -/
theorem eval_binary_eq_error {p : Int} {value : Datum} {l r : Expr} {fault : Machine.Fault}
    (h : (binary p value l r).eval = .error fault) :
    l.eval = .error fault ∨ (∃ a, l.eval = .ok a ∧ r.eval = .error fault) ∨
      ∃ a b, l.eval = .ok a ∧ r.eval = .ok b ∧
        ((value.denoted? = none ∧ fault = .inapplicable value p) ∨
          ∃ op f, value.denoted? = some op ∧ op.apply a b = .error f ∧ fault = .arithmetic f value p) := by
  rw [eval, Except.bind_eq_error_iff] at h
  obtain h | ⟨a, ha, h⟩ := h
  · exact .inl h
  rw [Except.bind_eq_error_iff] at h
  obtain h | ⟨b, hb, h⟩ := h
  · exact .inr (.inl ⟨a, ha, h⟩)
  refine .inr (.inr ⟨a, b, ha, hb, ?_⟩)
  split at h
  · rename_i hnone
    cases h
    exact .inl ⟨hnone, rfl⟩
  · rename_i op hop
    cases hab : op.apply a b with
    | ok v => rw [hab] at h; cases h
    | error f =>
      rw [hab] at h
      cases h
      exact .inr ⟨op, f, hop, hab, rfl⟩

/-- Only numbers, names, changes of sign and binary operators occur in the tree. What
stands in the place of a binary operator may be anything. -/
def Codable : Expr → Prop
  | number .. | identifier .. => True
  | unary _ .negate e => e.Codable
  | unary _ (.other _) _ | foreign _ => False
  | binary _ _ l r => l.Codable ∧ r.Codable

/-! ### The code of a tree without foreign nodes -/

theorem emit_append {a b : Emission} (ha : a.culprit = none) :
    a ++ b = ⟨a.code ++ b.code, b.culprit⟩ := by
  show Emission.append a b = _
  rw [Emission.append, ha]

/-- Nothing in such a tree keeps it from having code. -/
theorem Codable.culprit {e : Expr} (h : e.Codable) : e.emit.culprit = none := by
  induction e with
  | number | identifier => rfl
  | unary p op e ih =>
    cases op with
    | negate =>
      rw [emit, emit_append (ih h)]
      rfl
    | other value => exact h.elim
  | binary p op l r ihl ihr =>
    have hlr : (l.emit ++ r.emit).culprit = none := by rw [emit_append (ihl h.1)]; exact ihr h.2
    rw [emit, emit_append hlr]
    rfl
  | foreign object => exact h.elim

/-- Unless something stopped the writing, what was written is the code. -/
theorem code_eq_ok {e : Expr} (h : e.emit.culprit = none) : e.code = .ok e.emit.code := by
  rw [code]
  split
  · rename_i he
    rw [he]
  · rename_i he
    rw [he] at h
    cases h

theorem Codable.code_eq {e : Expr} (h : e.Codable) : e.code = .ok e.emit.code := code_eq_ok h.culprit

theorem Codable.emit_negate {p : Int} {e : Expr} (h : e.Codable) :
    (unary p .negate e).emit.code = e.emit.code ++ [.negate p] := by
  rw [emit, emit_append h.culprit]
  rfl

theorem Codable.emit_binary {p : Int} {value : Datum} {l r : Expr} (hl : l.Codable) (hr : r.Codable) :
    (binary p value l r).emit.code = l.emit.code ++ (r.emit.code ++ [.apply p value]) := by
  have hlr : (l.emit ++ r.emit).culprit = none := by rw [emit_append hl.culprit]; exact hr.culprit
  rw [emit, emit_append hlr, emit_append hl.culprit]
  exact List.append_assoc ..

/-! ### Running the code -/

end Expr

theorem exec_append (c₁ c₂ : List Instr) (s : Stack) :
    exec (c₁ ++ c₂) s = exec c₁ s >>= exec c₂ := by
  induction c₁ generalizing s with
  | nil => rfl
  | cons i c₁ ih =>
    simp only [List.cons_append, exec]
    cases step i s with
    | error halt => rfl
    | ok s' => exact ih s'

/-- The machine, started on the stack `s`, has done what a value or a fault says: it
has pushed the value on `s`, or it has stopped for that fault with `s` still below
whatever else is on the stack. -/
def Delivers (s : Stack) : Except Machine.Fault Number → Except Halt Stack → Prop
  | .ok v, ran => ran = .ok (v :: s)
  | .error fault, ran => ∃ above, ran = .error ⟨fault, above ++ s⟩

/-- Code that starts with the code of an operand fails when the operand does. -/
theorem Delivers.bind_error {s : Stack} {fault : Machine.Fault} {ran : Except Halt Stack}
    (h : Delivers s (.error fault) ran) (f : Stack → Except Halt Stack) :
    Delivers s (.error fault) (ran >>= f) := by
  obtain ⟨above, rfl⟩ := h
  exact ⟨above, rfl⟩

/-- A failure above one more operand is a failure above the stack below it. -/
theorem Delivers.below {s : Stack} {a : Number} {fault : Machine.Fault} {ran : Except Halt Stack}
    (h : Delivers (a :: s) (.error fault) ran) : Delivers s (.error fault) ran := by
  obtain ⟨above, rfl⟩ := h
  exact ⟨above ++ [a], by simp⟩

/-- The last instruction of a binary operator, with both operands on the stack. -/
theorem delivers_apply (p : Int) (value : Datum) (a b : Number) (s : Stack) :
    Delivers s
      (match value.denoted? with
        | none => .error (.inapplicable value p)
        | some op => (op.apply a b).mapError fun fault => .arithmetic fault value p)
      (exec [.apply p value] (b :: a :: s)) := by
  simp only [exec, step]
  cases value.denoted? with
  | none => exact ⟨[b, a], rfl⟩
  | some op =>
    cases hab : op.apply a b with
    | ok v => simp [hab, Delivers]
    | error fault =>
      simp only [hab, Except.mapError_error]
      exact ⟨[], rfl⟩

/-- The code of an expression does what the meaning of the expression says. -/
theorem delivers_emit {e : Expr} (h : e.Codable) (s : Stack) : Delivers s e.eval (exec e.emit.code s) := by
  -- the stack is general, for the right operand runs above the value of the left one
  induction e generalizing s with
  | number p value => rfl
  | identifier p name => exact ⟨[], rfl⟩
  | unary p op e ih =>
    cases op with
    | negate =>
      have he := ih h s
      rw [Expr.Codable.emit_negate (show e.Codable from h), exec_append, Expr.eval]
      cases hv : e.eval with
      | error fault => rw [hv] at he; exact he.bind_error _
      | ok v =>
        rw [hv] at he
        rw [show exec e.emit.code s = .ok (v :: s) from he]
        rfl
    | other value => exact h.elim
  | binary p value l r ihl ihr =>
    obtain ⟨hl, hr⟩ := h
    have hls := ihl hl s
    rw [Expr.Codable.emit_binary hl hr, exec_append, Expr.eval]
    cases ha : l.eval with
    | error fault => rw [ha] at hls; exact hls.bind_error _
    | ok a =>
      rw [ha] at hls
      rw [show exec l.emit.code s = .ok (a :: s) from hls, Except.ok_bind, Except.ok_bind, exec_append]
      have hrs := ihr hr (a :: s)
      cases hb : r.eval with
      | error fault => rw [hb] at hrs; exact hrs.below.bind_error _
      | ok b =>
        rw [hb] at hrs
        rw [show exec r.emit.code (a :: s) = .ok (b :: a :: s) from hrs]
        exact delivers_apply p value a b s
  | foreign object => exact h.elim

/-! ### Whole programs -/

/-- The stack was used out of balance. -/
def Machine.Fault.Misuse : Machine.Fault → Prop
  | .emptyStack | .unbalanced _ => True
  | _ => False

/-- No expression means a misuse of the stack. -/
theorem Expr.not_misuse_of_eval {e : Expr} {fault : Machine.Fault} (h : e.eval = .error fault) :
    ¬ fault.Misuse := by
  induction e with
  | number => cases h
  | identifier => cases h; exact id
  | unary p op e ih =>
    cases op with
    | negate => exact ih (eval_negate_eq_error h)
    | other value => cases h; exact id
  | binary p value l r ihl ihr =>
    obtain h | ⟨a, -, h⟩ | ⟨a, b, -, -, ⟨-, rfl⟩ | ⟨op, f, -, -, rfl⟩⟩ := eval_binary_eq_error h
    · exact ihl h
    · exact ihr h
    · exact id
    · exact id
  | foreign object => cases h; exact id

/-- Only a misuse of the stack is reported as one. -/
theorem Failure.misuse_of_ofMachine {fault : Machine.Fault} {reason : String} {depth : Int}
    (h : Failure.ofMachine fault = .stackMisuse reason depth) : fault.Misuse := by
  cases fault with
  | emptyStack | unbalanced => trivial
  | unknownName | foreignInstr => cases h
  | inapplicable value p =>
    simp only [Failure.ofMachine, Failure.inapplicable] at h
    split at h <;> cases h
  | arithmetic fault value p =>
    cases fault with
    | tooLarge =>
      simp only [Failure.ofMachine, Failure.resultTooLarge] at h
      split at h <;> cases h
    | outOfDomain | floorOfNan => cases h

/-- The faults of the machine that are reported as errors of the language. -/
theorem Failure.ofMachine_eq_error {fault : Machine.Fault} {err : Error} (h : Failure.ofMachine fault = .error err) :
    (∃ name p, fault = .unknownName name p ∧ err = .unknownName name (some p)) ∨
      (∃ value p shown, fault = .inapplicable value p ∧ err = .atOffset (.inapplicable shown) (some p)) ∨
      (∃ value p shown, fault = .arithmetic .tooLarge value p ∧ err = .atOffset (.resultTooLarge shown) (some p)) ∨
      ∃ object : Foreign, fault = .foreignInstr object ∧ err = .foreignInstr object.typeName object.position := by
  cases fault with
  | emptyStack | unbalanced => cases h
  | unknownName name p =>
    cases h
    exact .inl ⟨name, p, rfl, rfl⟩
  | inapplicable value p =>
    simp only [Failure.ofMachine, Failure.inapplicable] at h
    split at h <;> cases h
    exact .inr (.inl ⟨value, p, _, rfl, rfl⟩)
  | arithmetic fault value p =>
    cases fault with
    | tooLarge =>
      simp only [Failure.ofMachine, Failure.resultTooLarge] at h
      split at h <;> cases h
      exact .inr (.inr (.inl ⟨value, p, _, rfl, rfl⟩))
    | outOfDomain | floorOfNan => cases h
  | foreignInstr object =>
    cases h
    exact .inr (.inr (.inr ⟨object, rfl, rfl⟩))

/-- A program that does what a meaning says gives that meaning as its result. -/
theorem run_of_delivers {code : List Instr} {meaning : Except Machine.Fault Number}
    (h : Delivers [] meaning (exec code [])) : (run code).mapError Halt.fault = meaning := by
  cases meaning with
  | ok v =>
    rw [run, show exec code [] = .ok [v] from h]
    rfl
  | error fault =>
    obtain ⟨above, h⟩ := h
    rw [run, h]
    rfl

theorem value_eq (code : List Instr) :
    Calculation.value code = ((run code).mapError Halt.fault).mapError .ofMachine := by
  rw [Calculation.value]
  cases run code <;> rfl

/-- The result of the code of an expression is its value. -/
theorem value_emit {e : Expr} (h : e.Codable) :
    Calculation.value e.emit.code = e.eval.mapError .ofMachine := by
  rw [value_eq, run_of_delivers (delivers_emit h [])]

/-- **The code of an expression computes its value.** Every tree of numbers, names,
changes of sign and binary operators has code. On any stack, the code pushes the value
of the expression; if there is none, it stops for the same fault, which holds its
reason and its position, and the stack is still there. Run on its own, the code has
the value as its result, and never misuses the stack. -/
theorem code_computes_eval (e : Expr) (h : e.Codable) :
    ∃ code, e.code = .ok code ∧
      (∀ s v, e.eval = .ok v → exec code s = .ok (v :: s)) ∧
      (∀ s fault, e.eval = .error fault → ∃ above, exec code s = .error ⟨fault, above ++ s⟩) ∧
      (run code).mapError Halt.fault = e.eval ∧
      Calculation.value code = e.eval.mapError .ofMachine ∧
      ∀ reason depth, Calculation.value code ≠ .error (.stackMisuse reason depth) := by
  refine ⟨e.emit.code, h.code_eq, fun s v hv => ?_, fun s fault hf => ?_,
    run_of_delivers (delivers_emit h []), value_emit h, ?_⟩
  · have := delivers_emit h s
    rw [hv] at this
    exact this
  · have := delivers_emit h s
    rw [hf] at this
    exact this
  · intro reason depth hm
    rw [value_emit h] at hm
    cases hf : e.eval with
    | ok v => rw [hf] at hm; cases hm
    | error fault =>
      rw [hf, Except.mapError_error, Except.error.injEq] at hm
      exact Expr.not_misuse_of_eval hf (Failure.misuse_of_ofMachine hm)

/-- In `7 ^ x` with an operator that nobody knows, the name is what stops the code: an
unknown operator is met last. -/
theorem code_computes_eval_unknown_operator :
    (Expr.binary 2 (.text "^") (.number 0 (.int 7)) (.identifier 4 "x")).Codable ∧
      ∃ code, (Expr.binary 2 (.text "^") (.number 0 (.int 7)) (.identifier 4 "x")).code = .ok code ∧
        ∃ above, exec code [.int 1] = .error ⟨.unknownName "x" 4, above ++ [.int 1]⟩ := by
  have h : (Expr.binary 2 (.text "^") (.number 0 (.int 7)) (.identifier 4 "x")).Codable := ⟨trivial, trivial⟩
  obtain ⟨code, hcode, -, hfault, -⟩ := code_computes_eval _ h
  exact ⟨h, code, hcode, hfault [.int 1] _ rfl⟩

end Abacus
