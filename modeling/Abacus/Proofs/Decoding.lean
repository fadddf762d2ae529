import Abacus.Proofs.Evaluation
import Mathlib.Logic.ExistsUnique

/-!
# Reading an expression off its code

The code of an expression lists its operators behind their operands, with no mark where
an operand starts. The expression can be read off it all the same, from the end: the last
instruction is that of the root, and before it stand the codes of the operands, the right
one last. So two expressions with the same code are the same expression.

No other code has a value. Whatever code the machine carries out, each number on its stack
is the value of an expression, and the code is that of these expressions, the lowest on
the stack first (`Built`). Code that leaves one number is the code of one expression.
-/

namespace Abacus

open Machine (Stack exec run step)

namespace Expr

/-! ### The last instruction -/

/-- The instruction of the root of a tree. -/
def rootInstr : Expr → Instr
  | number p value => .push p value
  | identifier p name => .load p name
  | unary p _ _ => .negate p
  | binary p value _ _ => .apply p value
  | foreign object => .foreign object

/-- The code of a tree ends with the instruction of its root, behind the codes of the
operands. -/
theorem Codable.emit_eq {e : Expr} (h : e.Codable) :
    e.emit.code = e.children.flatMap (fun child => child.emit.code) ++ [e.rootInstr] := by
  cases e with
  | number | identifier => rfl
  | unary p op e =>
    cases op with
    | negate => rw [emit_negate (show e.Codable from h)]; simp [children, rootInstr]
    | other value => exact h.elim
  | binary p value l r => rw [emit_binary h.1 h.2]; simp [children, rootInstr]
  | foreign object => exact h.elim

/-- Where two trees end the same list of instructions, their roots have the same instruction. -/
theorem Codable.append_emit_eq {e e' : Expr} (h : e.Codable) (h' : e'.Codable) {c c' : List Instr}
    (heq : c ++ e.emit.code = c' ++ e'.emit.code) :
    c ++ e.children.flatMap (fun child => child.emit.code) =
        c' ++ e'.children.flatMap (fun child => child.emit.code) ∧ e.rootInstr = e'.rootInstr := by
  rw [h.emit_eq, h'.emit_eq, ← List.append_assoc, ← List.append_assoc] at heq
  obtain ⟨hc, hroot⟩ := List.append_inj' heq rfl
  exact ⟨hc, List.singleton_inj.mp hroot⟩

/-- Where a list of instructions ends with the code of a tree, it does so in one way. -/
theorem Codable.append_emit_inj {e e' : Expr} (h : e.Codable) (h' : e'.Codable) {c c' : List Instr}
    (heq : c ++ e.emit.code = c' ++ e'.emit.code) : c = c' ∧ e = e' := by
  -- what stands before the code is general: for a right operand, the left one stands there
  induction e generalizing e' c c' with
  | number p value =>
    obtain ⟨hc, hroot⟩ := h.append_emit_eq h' heq
    cases e' with
    | number => cases hroot; simpa [children] using hc
    | identifier | unary | binary | foreign => cases hroot
  | identifier p name =>
    obtain ⟨hc, hroot⟩ := h.append_emit_eq h' heq
    cases e' with
    | identifier => cases hroot; simpa [children] using hc
    | number | unary | binary | foreign => cases hroot
  | unary p op e ih =>
    obtain ⟨hc, hroot⟩ := h.append_emit_eq h' heq
    cases e' with
    | unary p' op' e' =>
      cases op with
      | other => exact h.elim
      | negate =>
        cases op' with
        | other => exact h'.elim
        | negate =>
          cases hroot
          have hc : c ++ e.emit.code = c' ++ e'.emit.code := by simpa [children] using hc
          obtain ⟨rfl, rfl⟩ := ih h (show e'.Codable from h') hc
          exact ⟨rfl, rfl⟩
    | number | identifier | binary | foreign => cases hroot
  | binary p value l r ihl ihr =>
    obtain ⟨hc, hroot⟩ := h.append_emit_eq h' heq
    cases e' with
    | binary p' value' l' r' =>
      cases hroot
      have hc : (c ++ l.emit.code) ++ r.emit.code = (c' ++ l'.emit.code) ++ r'.emit.code := by
        simpa [children] using hc
      obtain ⟨hl, rfl⟩ := ihr h.2 h'.2 hc
      obtain ⟨rfl, rfl⟩ := ihl h.1 h'.1 hl
      exact ⟨rfl, rfl⟩
    | number | identifier | unary | foreign => cases hroot
  | foreign object => exact h.elim

theorem Codable.code_inj {e e' : Expr} (h : e.Codable) (h' : e'.Codable) (heq : e.code = e'.code) : e = e' := by
  rw [h.code_eq, h'.code_eq, Except.ok.injEq] at heq
  exact (append_emit_inj h h' (show [] ++ e.emit.code = [] ++ e'.emit.code from heq)).2

/-! ### Trees that the machine has worked off -/

/-- Only numbers, changes of sign and binary operators that can be applied occur in the
tree. -/
def Runnable : Expr → Prop
  | number .. => True
  | unary _ .negate e => e.Runnable
  | binary _ value l r => (∃ op, value.denoted? = some op) ∧ l.Runnable ∧ r.Runnable
  | identifier .. | unary _ (.other _) _ | foreign _ => False

theorem Runnable.codable {e : Expr} (h : e.Runnable) : e.Codable := by
  induction e with
  | number => trivial
  | identifier => exact h.elim
  | unary p op e ih =>
    cases op with
    | negate => exact ih h
    | other value => exact h.elim
  | binary p value l r ihl ihr => exact ⟨ihl h.2.1, ihr h.2.2⟩
  | foreign object => exact h.elim

end Expr

/-- `Built code s`: for each number on the stack `s` there is a tree that has it as its
value, and `code` is the code of these trees, the lowest first. -/
inductive Built : List Instr → Stack → Prop where
  /-- No code and an empty stack. -/
  | empty : Built [] []
  /-- The code of one more tree, whose value is on top. -/
  | above {code : List Instr} {s : Stack} {e : Expr} {v : Number} : Built code s → e.Runnable →
      e.eval = .ok v → Built (code ++ e.emit.code) (v :: s)

/-- An instruction that is carried out turns the trees on top into a tree of its own. -/
theorem Built.step {code : List Instr} {i : Instr} {s s' : Stack} (h : Built code s)
    (hs : step i s = .ok s') : Built (code ++ [i]) s' := by
  cases i with
  | push p value =>
    cases hs
    exact h.above (e := .number p value) trivial rfl
  | negate p =>
    cases h with
    | empty => cases hs
    | @above code s e v h he hv =>
      cases hs
      rw [List.append_assoc, ← Expr.Codable.emit_negate he.codable]
      exact h.above (e := .unary p .negate e) he (by rw [Expr.eval, hv]; rfl)
  | apply p value =>
    simp only [Machine.step] at hs
    cases hop : value.denoted? with
    | none => rw [hop] at hs; cases hs
    | some op =>
      rw [hop] at hs
      cases h with
      | empty => cases hs
      | @above code s r b h hr hb =>
        cases h with
        | empty => cases hs
        | @above code s l a h hl ha =>
          cases hab : op.apply a b with
          | error fault => simp [hab] at hs
          | ok v =>
            simp only [hab, Except.ok.injEq] at hs
            subst hs
            have hv : (Expr.binary p value l r).eval = .ok v := by
              rw [Expr.eval, ha, Except.ok_bind, hb, Except.ok_bind, hop]
              simp only [hab, Except.mapError_ok]
            rw [List.append_assoc, List.append_assoc, ← Expr.Codable.emit_binary hl.codable hr.codable]
            exact h.above (e := .binary p value l r) ⟨⟨op, hop⟩, hl, hr⟩ hv
  | load | foreign => cases hs

theorem Built.exec {code c : List Instr} {s s' : Stack} (h : Built code s) (hs : exec c s = .ok s') :
    Built (code ++ c) s' := by
  induction c generalizing code s with
  | nil =>
    cases hs
    rwa [List.append_nil]
  | cons i c ih =>
    obtain ⟨s₁, hi, hc⟩ := Except.bind_eq_ok_iff.mp hs
    have := ih (h.step hi) hc
    rwa [List.append_assoc] at this

theorem exec_of_run {code : List Instr} {v : Number} (h : run code = .ok v) : exec code [] = .ok [v] := by
  obtain ⟨s, hs, h⟩ := Except.bind_eq_ok_iff.mp h
  match s, h with
  | [result], h => cases h; exact hs

/-- Code with a value is the code of a tree with that value. -/
theorem exists_code_of_run {code : List Instr} {v : Number} (h : run code = .ok v) :
    ∃ e : Expr, e.Runnable ∧ e.code = .ok code ∧ e.eval = .ok v := by
  have hbuilt : Built code [v] := Built.empty.exec (exec_of_run h)
  cases hbuilt with
  | @above code s e v hempty he hv =>
    cases hempty
    exact ⟨e, he, he.codable.code_eq, hv⟩

/-- **Code has a value only if it is the code of an expression, and then of one only.** If
code gives a value, there is exactly one tree of numbers, changes of sign and binary
operators known to the machine that has this code, and the value of the code is its value.
Moreover, trees of numbers, names, changes of sign and any binary operators are the same if
they have the same code; their positions are part of them. -/
theorem code_decodes_uniquely :
    (∀ code v, run code = .ok v → (∃! e : Expr, e.Runnable ∧ e.code = .ok code) ∧
      ∀ e : Expr, e.Runnable → e.code = .ok code → e.eval = .ok v) ∧
    ∀ e e' : Expr, e.Codable → e'.Codable → e.code = e'.code → e = e' := by
  refine ⟨fun code v h => ?_, fun e e' h h' => h.code_inj h'⟩
  obtain ⟨e, he, hcode, hv⟩ := exists_code_of_run h
  have huniq : ∀ e' : Expr, e'.Runnable → e'.code = .ok code → e' = e := fun e' he' hcode' =>
    he'.codable.code_inj he.codable (hcode'.trans hcode.symm)
  refine ⟨⟨e, ⟨he, hcode⟩, fun e' h' => huniq e' h'.1 h'.2⟩, fun e' he' hcode' => ?_⟩
  rw [huniq e' he' hcode']
  exact hv

/-- Code that applies `16`, the code of the addition, has a value and is that of one tree. -/
theorem code_decodes_uniquely_lookalike :
    run [.push 0 (.int 2), .push 4 (.int 3), .negate 3, .apply 1 (.number (.int 16))] = .ok (.int (-1)) ∧
      ∃! e : Expr, e.Runnable ∧
        e.code = .ok [.push 0 (.int 2), .push 4 (.int 3), .negate 3, .apply 1 (.number (.int 16))] := by
  have h : run [.push 0 (.int 2), .push 4 (.int 3), .negate 3, .apply 1 (.number (.int 16))] = .ok (.int (-1)) := rfl
  exact ⟨h, (code_decodes_uniquely.1 _ _ h).1⟩

end Abacus
