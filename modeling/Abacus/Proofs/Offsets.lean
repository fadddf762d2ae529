import Abacus.Proofs.Anchors
import Abacus.Proofs.Composition
import Abacus.Proofs.Height

/-!
# Offsets decide nothing

Tokens, nodes and instructions carry offsets and hand them on, from the text to the errors. No step of the
work looks at one. So each step commutes with any function on offsets, which need not even keep different
offsets apart: if the tokens move, the tree moves with them, or the fault does; if the tree moves, so does its
code; and code that has moved has the same result, or the same fault further on.

The parser makes up an end of input when it runs out of tokens, and the offset of that does not move. A list
of tokens that ends its input never comes to this: the token that ends the input is never taken by an operand.

It follows that source texts with the same lexemes have the same value, or the same error at the token
that corresponds, whatever blanks and spellings they are written with.
-/

namespace Abacus

open Calculation

/-! ### What moves -/

@[simp] theorem Token.lexeme_relocate (f : Int → Int) (t : Token) : (t.relocate f).lexeme = t.lexeme := rfl

@[simp] theorem Token.isEnd_relocate (f : Int → Int) (t : Token) : (t.relocate f).isEnd = t.isEnd := rfl

def Instr.relocate (f : Int → Int) : Instr → Instr
  | .push p value => .push (f p) value
  | .negate p => .negate (f p)
  | .apply p value => .apply (f p) value
  | .load p name => .load (f p) name
  | .foreign object => .foreign (object.relocate f)

def Machine.Halt.relocate (f : Int → Int) (halt : Machine.Halt) : Machine.Halt := ⟨halt.fault.relocate f, halt.stack⟩

namespace Parse

def Fault.relocate (f : Int → Int) (fault : Fault) : Fault := ⟨fault.cause, fault.token.relocate f⟩

def Stop.relocate (f : Int → Int) (stop : Stop) : Stop :=
  ⟨stop.fault.relocate f, stop.rest.map (Token.relocate f), stop.nesting⟩

def Join.relocate (f : Int → Int) (j : Join) : Join := ⟨j.token.relocate f, j.operator, j.right.relocate f⟩

/-- An expression that was read, and the tokens behind it. -/
def relocateFront (f : Int → Int) : Front Expr → Front Expr :=
  Prod.map (Expr.relocate f) (List.map (Token.relocate f))

/-- Operators with their operands. -/
def relocateRun (f : Int → Int) : List (Token × Expr) → List (Token × Expr) :=
  List.map (Prod.map (Token.relocate f) (Expr.relocate f))

end Parse

/-! ### Resolving operators -/

theorem Expr.height_relocate (f : Int → Int) (e : Expr) : (e.relocate f).height = e.height := by
  induction e with
  | number | identifier | foreign => rfl
  | unary p op e ih => rw [relocate, height, height, ih]
  | binary p value l r ihl ihr => rw [relocate, height, height, ihl, ihr]

namespace Parse

variable (f : Int → Int)

theorem checkDepth_relocate (t : Token) (e : Expr) :
    checkDepth (t.relocate f) (e.relocate f) = (checkDepth t e).bimap (Fault.relocate f) (Expr.relocate f) := by
  rw [checkDepth, checkDepth, Expr.depth_eq_height, Expr.depth_eq_height, Expr.height_relocate]
  split <;> rfl

theorem sweep_relocate (rank : Nat) (left : Expr) (js : List Join) :
    sweep rank (left.relocate f) (js.map (Join.relocate f)) =
      (sweep rank left js).bimap (Fault.relocate f) (Prod.map (Expr.relocate f) (List.map (Join.relocate f))) := by
  induction js generalizing left with
  | nil => rfl
  | cons j js ih =>
    rw [List.map_cons, sweep, sweep]
    by_cases hrank : j.operator.rank = rank
    · rw [if_pos hrank, if_pos (show (j.relocate f).operator.rank = rank from hrank)]
      have hnode := checkDepth_relocate f j.token (.binary j.token.position (.operator j.operator) left j.right)
      exact Except.bimap_bind hnode fun node _ => ih node
    · rw [if_neg hrank, if_neg (show (j.relocate f).operator.rank ≠ rank from hrank)]
      exact Except.bimap_bind (ih j.right) fun p _ => rfl

theorem toJoin_relocate (t : Token) (right : Expr) :
    toJoin (t.relocate f) (right.relocate f) = (toJoin t right).bimap (Fault.relocate f) (Join.relocate f) := by
  rw [toJoin, toJoin, show (t.relocate f).value = t.value from rfl]
  cases t.value.operator? <;> rfl

theorem resolve_relocate (first : Expr) (run : List (Token × Expr)) :
    resolve (first.relocate f) (relocateRun f run) =
      (resolve first run).bimap (Fault.relocate f) (Expr.relocate f) := by
  have hjoins : (relocateRun f run).mapM (fun p => toJoin p.1 p.2) =
      (run.mapM fun p => toJoin p.1 p.2).bimap (Fault.relocate f) (List.map (Join.relocate f)) := by
    induction run with
    | nil => rfl
    | cons p run ih =>
      rw [relocateRun, List.map_cons, List.mapM_cons, List.mapM_cons]
      refine Except.bimap_bind (toJoin_relocate f p.1 p.2) fun j _ => ?_
      exact Except.bimap_bind ih fun js _ => rfl
  rw [resolve, resolve]
  refine Except.bimap_bind hjoins fun js _ => ?_
  refine Except.bimap_bind (sweep_relocate f 0 first js) fun p _ => ?_
  exact Except.bimap_bind (sweep_relocate f 1 p.1 p.2) fun q _ => rfl

/-! ### Lists that end the input -/

/-- Some token of the list ends the input. -/
def Ended (ts : List Token) : Prop := ∃ t ∈ ts, t.isEnd = true

theorem Ended.of_append {w rest : List Token} (h : Ended (w ++ rest)) (hw : ∀ t ∈ w, t.isEnd = false) :
    Ended rest := by
  obtain ⟨t, ht, hend⟩ := h
  rcases List.mem_append.mp ht with ht | ht
  · rw [hw t ht] at hend
    cases hend
  · exact ⟨t, ht, hend⟩

theorem Ended.tail {t : Token} {ts : List Token} (h : Ended (t :: ts)) (ht : t.lexeme ≠ .endOfInput) : Ended ts :=
  Ended.of_append (w := [t]) h (by simpa [Token.isEnd] using ht)

theorem Ended.ne_nil {ts : List Token} (h : Ended ts) : ts ≠ [] := by
  rintro rfl
  obtain ⟨t, ht, -⟩ := h
  cases ht

theorem ne_endOfInput_of_isOperator {t : Token} (h : t.lexeme.isOperator = true) : t.lexeme ≠ .endOfInput := by
  intro hend
  rw [hend] at h
  cases h

/-- An operand does not take the token that ends the input. -/
theorem Ended.operand {room : Nat} {ts rest : List Token} {e : Expr} (hts : Ended ts)
    (h : operand room ts = .ok (e, rest)) : Ended rest := by
  obtain ⟨w, rfl, hderives⟩ := operand_sound room ts e rest h
  exact hts.of_append hderives.not_isEnd

/-- Nor does an expression. -/
theorem Ended.expression {room nesting : Nat} {ts rest : List Token} {e : Expr} (hts : Ended ts)
    (h : expression (Parse.operand room) nesting ts = .ok (e, rest)) : Ended rest := by
  obtain ⟨w, first, js, rfl, hflat, -⟩ := expression_sound (operand_sound room) h
  exact hts.of_append hflat.derives.not_isEnd

/-! ### Operands and expressions -/

variable {room : Nat}

section Expression

/- What is shown of operands holds of the rows and expressions that are made up of them. -/
variable (hread : ∀ ts, Ended ts → operand room (ts.map (Token.relocate f)) =
  (operand room ts).bimap (Stop.relocate f) (relocateFront f))

include hread

theorem operatorRun_relocate (fuel : Nat) {ts : List Token} (hts : Ended ts) :
    operatorRun (operand room) fuel (ts.map (Token.relocate f)) =
      (operatorRun (operand room) fuel ts).bimap (Stop.relocate f)
        (Prod.map (relocateRun f) (List.map (Token.relocate f))) := by
  induction fuel generalizing ts with
  | zero => cases ts <;> rfl
  | succ fuel ih =>
    cases ts with
    | nil => rfl
    | cons t ts =>
      rw [List.map_cons, operatorRun, operatorRun, Token.lexeme_relocate]
      by_cases hop : t.lexeme.isOperator = true
      · rw [if_pos hop, if_pos hop]
        have hts' : Ended ts := hts.tail (ne_endOfInput_of_isOperator hop)
        refine Except.bimap_bind (hread ts hts') fun p hp => ?_
        exact Except.bimap_bind (ih (hts'.operand hp)) fun q _ => rfl
      · rw [if_neg hop, if_neg hop]
        rfl

theorem expression_relocate (nesting : Nat) {ts : List Token} (hts : Ended ts) :
    expression (operand room) nesting (ts.map (Token.relocate f)) =
      (expression (operand room) nesting ts).bimap (Stop.relocate f) (relocateFront f) := by
  rw [expression, expression]
  refine Except.bimap_bind (hread ts hts) fun p hp => ?_
  have hlength : (p.2.map (Token.relocate f)).length = p.2.length := List.length_map ..
  refine Except.bimap_bind ((congrArg (operatorRun (operand room) · _) hlength).trans
    (operatorRun_relocate f hread p.2.length (hts.operand hp))) fun q _ => ?_
  simp only [relocateFront, Prod.map_fst, Prod.map_snd, resolve_relocate]
  cases resolve p.1 q.1 <;> rfl

end Expression

theorem closeGroup_relocate (nesting : Nat) (e : Expr) {ts : List Token} (hts : Ended ts) :
    closeGroup nesting (e.relocate f) (ts.map (Token.relocate f)) =
      (closeGroup nesting e ts).bimap (Stop.relocate f) (relocateFront f) := by
  cases ts with
  | nil => exact absurd rfl hts.ne_nil
  | cons t ts =>
    rw [List.map_cons, closeGroup, closeGroup, Token.lexeme_relocate]
    by_cases hclose : t.lexeme = .closeParen
    · rw [if_pos hclose, if_pos hclose]
      rfl
    · rw [if_neg hclose, if_neg hclose]
      rfl

theorem operand_relocate (room : Nat) (ts : List Token) (hts : Ended ts) :
    operand room (ts.map (Token.relocate f)) = (operand room ts).bimap (Stop.relocate f) (relocateFront f) := by
  cases ts with
  | nil => exact absurd rfl hts.ne_nil
  | cons t ts =>
    rw [List.map_cons, operand.eq_def, operand.eq_def]
    cases hl : t.lexeme with
    | number | identifier | endOfInput | closeParen | other => simp only [Token.lexeme_relocate, hl]; rfl
    | openParen =>
      have hts' : Ended ts := hts.tail (by simp [hl])
      simp only [Token.lexeme_relocate, hl]
      cases room with
      | zero => rfl
      | succ room =>
        refine Except.bimap_bind (expression_relocate f (operand_relocate room) _ hts') fun p hp => ?_
        exact closeGroup_relocate f _ p.1 (hts'.expression hp)
    | operator d =>
      have hts' : Ended ts := hts.tail (by simp [hl])
      simp only [Token.lexeme_relocate, hl]
      split
      · rfl
      · exact operand_relocate _ ts hts'
      · rfl
      · refine Except.bimap_bind (operand_relocate _ ts hts') fun p _ => ?_
        have hcheck : checkDepth (t.relocate f) (.unary (t.relocate f).position .negate (relocateFront f p).1) = _ :=
          checkDepth_relocate f t (.unary t.position .negate p.1)
        simp only [hcheck]
        cases checkDepth t (.unary t.position .negate p.1) <;> rfl
      · rfl
termination_by room

/-! ### Whole lists of tokens -/

theorem whole_relocate {ts : List Token} (hts : Ended ts) :
    whole (ts.map (Token.relocate f)) = (whole ts).bimap (Stop.relocate f) (relocateFront f) := by
  rw [whole, whole]
  refine Except.bimap_bind (expression_relocate f (operand_relocate f depthLimit) 0 hts) fun p _ => ?_
  obtain ⟨e, rest⟩ := p
  cases rest with
  | nil => rfl
  | cons t rest =>
    simp only [relocateFront, Prod.map_apply, List.map_cons, Token.isEnd_relocate]
    cases t.isEnd <;> rfl

theorem close_concat {ts : List Token} {stop : Token} (h : stop.isEnd = true) : close (ts ++ [stop]) = ts ++ [stop] := by
  rw [close, List.getLast?_concat]
  simp [h]

/-- The tree of tokens that have moved is their tree, moved in the same way, and so is their fault. -/
theorem tree_relocate (ts : List Token) {stop : Token} (h : stop.isEnd = true) :
    tree ((ts ++ [stop]).map (Token.relocate f)) =
      (tree (ts ++ [stop])).bimap (Fault.relocate f) (Expr.relocate f) := by
  have hts : Ended (ts ++ [stop]) := ⟨stop, List.mem_append_right ts (List.mem_singleton_self stop), h⟩
  have hclose : close ((ts ++ [stop]).map (Token.relocate f)) = (ts ++ [stop]).map (Token.relocate f) := by
    have hend : (stop.relocate f).isEnd = true := h
    rw [List.map_append]
    exact close_concat hend
  rw [tree, tree, hclose, close_concat h, whole_relocate f hts]
  cases whole (ts ++ [stop]) <;> rfl

/-! ### The token at fault -/

section Expression

variable (hread : ∀ ts stop, Ended ts → operand room ts = .error stop → stop.fault.token ∈ ts)

include hread

theorem mem_of_operatorRun_fault {fuel : Nat} {ts : List Token} {stop : Stop} (hts : Ended ts)
    (h : operatorRun (operand room) fuel ts = .error stop) : stop.fault.token ∈ ts := by
  induction fuel generalizing ts with
  | zero => cases ts <;> cases h
  | succ fuel ih =>
    cases ts with
    | nil => cases h
    | cons t ts =>
      rw [operatorRun] at h
      split at h
      · rename_i hop
        have hts' := hts.tail (ne_endOfInput_of_isOperator hop)
        obtain h | ⟨⟨right, mid⟩, hright, h⟩ := Except.bind_eq_error_iff.mp h
        · exact List.mem_cons_of_mem t (hread ts stop hts' h)
        obtain h | ⟨q, -, h⟩ := Except.bind_eq_error_iff.mp h
        · have hmid := suffix_of_operand room ts right mid hright
          exact List.mem_cons_of_mem t (hmid.mem (ih (hts'.operand hright) h))
        · cases h
      · cases h

theorem mem_of_expression_fault {nesting : Nat} {ts : List Token} {stop : Stop} (hts : Ended ts)
    (h : expression (operand room) nesting ts = .error stop) : stop.fault.token ∈ ts := by
  obtain h | ⟨first, mid, hfirst, h⟩ := expression_eq_error h
  · exact hread ts stop hts h
  have hmid := suffix_of_operand room ts first mid hfirst
  obtain h | ⟨run, rest, fault, hrun, hresolve, rfl⟩ := h
  · exact hmid.mem (mem_of_operatorRun_fault hread (hts.operand hfirst) h)
  · obtain ⟨p, hp, htoken⟩ := List.mem_map.mp (token_of_resolve hresolve)
    rw [← htoken]
    exact hmid.mem (mem_of_operatorRun (suffix_of_operand room) hrun p hp).1

end Expression

theorem mem_of_closeGroup_fault {nesting : Nat} {e : Expr} {ts : List Token} {stop : Stop} (hts : Ended ts)
    (h : closeGroup nesting e ts = .error stop) : stop.fault.token ∈ ts := by
  cases ts with
  | nil => exact absurd rfl hts.ne_nil
  | cons t ts =>
    rw [closeGroup] at h
    split at h
    · cases h
    · cases h
      exact List.mem_cons_self ..

/-- Reading an operand stops at a token of the list, if the list ends the input. -/
theorem mem_of_operand_fault (room : Nat) (ts : List Token) (stop : Stop) (hts : Ended ts)
    (h : operand room ts = .error stop) : stop.fault.token ∈ ts := by
  cases ts with
  | nil => exact absurd rfl hts.ne_nil
  | cons t ts =>
    obtain ⟨-, rfl⟩ | ⟨-, rfl⟩ | ⟨room', rfl, hin⟩ := operand_cons_eq_error h
    · exact List.mem_cons_self ..
    · exact List.mem_cons_self ..
    obtain ⟨ht, nesting, h⟩ | ⟨ht, h⟩ | ⟨ht, h⟩ := hin
    · have hts' : Ended ts := hts.tail (by simp [ht])
      obtain hexpr | ⟨e, rest, hexpr, hclose⟩ := h
      · exact List.mem_cons_of_mem t (mem_of_expression_fault (mem_of_operand_fault room') hts' hexpr)
      · have hrest := mem_of_closeGroup_fault (hts'.expression hexpr) hclose
        obtain ⟨w, first, js, rfl, -⟩ := expression_sound (operand_sound room') hexpr
        exact List.mem_cons_of_mem t (List.mem_append_right w hrest)
    · exact List.mem_cons_of_mem t (mem_of_operand_fault room' ts stop (hts.tail ht.ne_endOfInput) h)
    · obtain h | ⟨e, rest, -, rfl⟩ := h
      · exact List.mem_cons_of_mem t (mem_of_operand_fault room' ts stop (hts.tail ht.ne_endOfInput) h)
      · exact List.mem_cons_self ..
termination_by room

/-- The parser stops at a token of the list, if the last one ends the input. -/
theorem mem_of_tree_fault {ts : List Token} {stop : Token} {fault : Fault} (hend : stop.isEnd = true)
    (h : tree (ts ++ [stop]) = .error fault) : fault.token ∈ ts ++ [stop] := by
  have hts : Ended (ts ++ [stop]) := ⟨stop, List.mem_append_right ts (List.mem_singleton_self stop), hend⟩
  rw [tree, close_concat hend] at h
  split at h
  · cases h
  rename_i halt hwhole
  cases h
  obtain h | ⟨⟨e, rest⟩, hexpr, h⟩ := Except.bind_eq_error_iff.mp hwhole
  · exact mem_of_expression_fault (mem_of_operand_fault depthLimit) hts h
  obtain ⟨w, first, js, hw, -⟩ := expression_sound (operand_sound depthLimit) hexpr
  cases rest with
  | nil => cases h
  | cons t rest =>
    simp only at h
    split at h
    · cases h
    · cases h
      rw [hw]
      exact List.mem_append_right w (List.mem_cons_self ..)

end Parse

/-! ### Code -/

def Culprit.relocate (f : Int → Int) : Culprit → Culprit
  | .codeless e => .codeless (e.relocate f)
  | .hollow typeName part => .hollow typeName part

def Guise.relocate (f : Int → Int) : Guise → Guise
  | .number p value => .number (f p) value
  | .identifier p name => .identifier (f p) name
  | .hollow kind => .hollow kind
  | .stranger => .stranger

def Emission.relocate (f : Int → Int) (a : Emission) : Emission :=
  ⟨a.code.map (Instr.relocate f), a.culprit.map (Culprit.relocate f)⟩

theorem Foreign.guise_relocate (f : Int → Int) (object : Foreign) :
    (object.relocate f).guise = object.guise.relocate f := by
  unfold guise
  rw [typeName_relocate]
  cases NodeKind.ofTypeName? object.typeName with
  | none => rfl
  | some kind => cases kind <;> cases object <;> rfl

theorem Emission.relocate_append (f : Int → Int) (a b : Emission) :
    (a ++ b).relocate f = a.relocate f ++ b.relocate f := by
  obtain ⟨code, culprit⟩ := a
  cases culprit with
  | some culprit => rfl
  | none =>
    show (⟨(code ++ b.code).map _, b.culprit.map _⟩ : Emission) = ⟨code.map _ ++ b.code.map _, b.culprit.map _⟩
    rw [List.map_append]

theorem Expr.emit_relocate (f : Int → Int) (e : Expr) : (e.relocate f).emit = e.emit.relocate f := by
  induction e with
  | number | identifier => rfl
  | foreign object =>
    rw [relocate, emit, emit, Foreign.guise_relocate, Foreign.typeName_relocate]
    cases object.guise <;> rfl
  | unary p op e ih =>
    cases op with
    | negate =>
      rw [relocate, emit, emit, ih, Emission.relocate_append]
      rfl
    | other value => rfl
  | binary p value l r ihl ihr =>
    rw [relocate, emit, emit, ihl, ihr, Emission.relocate_append, Emission.relocate_append]
    rfl

/-- The code of a tree that has moved is its code, moved in the same way, and so is what keeps it from having
one. -/
theorem Expr.code_relocate (f : Int → Int) (e : Expr) :
    (e.relocate f).code = e.code.bimap (Culprit.relocate f) (List.map (Instr.relocate f)) := by
  rw [code, code, emit_relocate]
  obtain ⟨code, culprit⟩ := e.emit
  cases culprit <;> rfl

/-- What is reported of a node without code moves with it. -/
theorem Error.codelessNode_relocate (f : Int → Int) (e : Expr) :
    codelessNode (e.relocate f) = (codelessNode e).relocate f := by
  cases e with
  | number | identifier | unary | binary => rfl
  | foreign object =>
    simp only [Expr.relocate, codelessNode, Expr.typeName, Expr.position, Foreign.typeName_relocate,
      Foreign.offset?_relocate, atOffset, relocate]
    cases object.position.offset? <;> rfl

theorem Failure.ofCulprit_relocate (f : Int → Int) (culprit : Culprit) :
    ofCulprit (culprit.relocate f) = (ofCulprit culprit).relocate f := by
  cases culprit with
  | codeless e => exact congrArg Failure.error (Error.codelessNode_relocate f e)
  | hollow typeName part => rfl

theorem calculation_code_relocate (f : Int → Int) (e : Expr) :
    code (e.relocate f) = (code e).bimap (Failure.relocate f) (List.map (Instr.relocate f)) := by
  rw [code, code, Expr.code_relocate]
  cases e.code with
  | ok program => rfl
  | error culprit => exact congrArg Except.error (Failure.ofCulprit_relocate f culprit)

/-! ### Running code -/

namespace Machine

theorem step_relocate (f : Int → Int) (i : Instr) (s : Stack) :
    step (i.relocate f) s = (step i s).bimap (Halt.relocate f) id := by
  cases i with
  | push | load | foreign => rfl
  | negate p => cases s <;> rfl
  | apply p value =>
    simp only [Instr.relocate, step]
    cases value.denoted? with
    | none => rfl
    | some op =>
      rcases s with _ | ⟨b, _ | ⟨a, s⟩⟩
      · rfl
      · rfl
      · dsimp only
        cases op.apply a b <;> rfl

theorem exec_relocate (f : Int → Int) (program : List Instr) (s : Stack) :
    exec (program.map (Instr.relocate f)) s = (exec program s).bimap (Halt.relocate f) id := by
  induction program generalizing s with
  | nil => rfl
  | cons i program ih =>
    rw [List.map_cons, exec, exec]
    exact Except.bimap_bind (step_relocate f i s) fun s' _ => ih s'

theorem run_relocate (f : Int → Int) (program : List Instr) :
    run (program.map (Instr.relocate f)) = (run program).bimap (Halt.relocate f) id := by
  rw [run, run]
  refine Except.bimap_bind (exec_relocate f program []) fun s _ => ?_
  rcases s with _ | ⟨v, _ | ⟨w, s⟩⟩ <;> rfl

end Machine

/-- Code that has moved has the same result, or stops for the same reason, moved in the same way. -/
theorem value_relocate (f : Int → Int) (program : List Instr) :
    value (program.map (Instr.relocate f)) = (value program).mapError (Failure.relocate f) := by
  rw [value, value, Machine.run_relocate]
  cases Machine.run program with
  | ok v => rfl
  | error halt =>
    rw [Except.mapError_error, Except.mapError_error, ← Failure.ofMachine_relocate]
    rfl

/-! ### Source texts with the same lexemes -/

theorem Scan.Scans.note_eq {n : Nat} {cs : List Char} {ts : List Token} (h : Scans n cs ts) :
    ∀ t ∈ ts, t.note = .missing := by
  induction h with
  | stop =>
    intro t ht
    rw [List.mem_singleton.mp ht]
    rfl
  | blank _ _ ih => exact ih
  | lexeme _ _ _ ih => exact List.forall_mem_cons.mpr ⟨rfl, ih⟩

/-- Tokens of texts with the same lexemes are the same but for a move: no two tokens of a text start at one
offset. -/
theorem Scan.Scans.exists_relocate_eq {n₁ n₂ : Nat} {cs₁ cs₂ : List Char} {ts₁ ts₂ : List Token}
    (h₁ : Scans n₁ cs₁ ts₁) (h₂ : Scans n₂ cs₂ ts₂) (hlexemes : ts₁.map Token.lexeme = ts₂.map Token.lexeme) :
    ∃ f, ts₂ = ts₁.map (Token.relocate f) := by
  have hnodup : (ts₁.map Token.position).Nodup :=
    (List.pairwise_map.mpr h₁.pairwise_position).imp fun hlt => Int.ne_of_lt hlt
  have hlength : ts₁.length = ts₂.length := by simpa using congrArg List.length hlexemes
  -- an offset of the first text goes to the offset of the token with the same number in the second
  refine ⟨fun p => ((ts₂.map Token.position)[(ts₁.map Token.position).idxOf p]?).getD 0, ?_⟩
  refine List.ext_getElem (by simp [hlength]) fun i hi₂ hi => ?_
  have hi₁ : i < ts₁.length := by simpa using hi
  have hindex : (ts₁.map Token.position).idxOf ts₁[i].position = i := by
    have := hnodup.idxOf_getElem i (by simpa using hi₁)
    rwa [List.getElem_map] at this
  have hlexeme : ts₁[i].lexeme = ts₂[i].lexeme := by
    have := List.getElem_of_eq hlexemes (i := i) (by simpa using hi₁)
    simpa using this
  have hnote : ts₁[i].note = ts₂[i].note := by
    rw [h₁.note_eq _ (List.getElem_mem hi₁), h₂.note_eq _ (List.getElem_mem hi₂)]
  rw [List.getElem_map, Token.relocate, hindex, hlexeme, hnote]
  simp [hi₂]

/-- Texts with the same lexemes come to the same outcome, but for a move. -/
theorem outcome_of_relocate {f : Int → Int} {s₁ s₂ : String} {ts : List Token} (h₁ : Scan.tokens s₁ = .ok ts)
    (h₂ : Scan.tokens s₂ = .ok (ts.map (Token.relocate f))) :
    outcome s₂ = (outcome s₁).mapError (Failure.relocate f) := by
  have htree : Parse.tree (ts.map (Token.relocate f)) =
      (Parse.tree ts).bimap (Parse.Fault.relocate f) (Expr.relocate f) := by
    rw [(Scan.tokens_eq_ok_iff.mp h₁).eq_concat.1]
    exact Parse.tree_relocate f _ rfl
  cases he : Parse.tree ts with
  | ok e =>
    rw [he] at htree
    rw [outcome_of_tree h₂ htree, outcome_of_tree h₁ he, eval_relocate_mapError]
  | error fault =>
    rw [he] at htree
    rw [outcome_of_fault h₂ htree, outcome_of_fault h₁ he]
    rfl

/-- An error of a text that can be scanned stands at one of its tokens. -/
theorem exists_token_of_outcome_error {source : String} {ts : List Token} {err : Error}
    (hts : Scan.tokens source = .ok ts) (h : outcome source = .error (.error err)) :
    ∃ t ∈ ts, err.position = some ⟨t.position, t.isEnd⟩ := by
  cases he : Parse.tree ts with
  | ok e =>
    rw [outcome_of_tree hts he] at h
    cases hv : e.eval with
    | ok v =>
      rw [hv] at h
      cases h
    | error fault =>
      rw [hv, Except.mapError_error, Except.error.injEq] at h
      obtain ⟨t, ht, hend, hposition, -⟩ := exists_token_of_eval_fault hts he hv h
      exact ⟨t, ht, by rw [hposition, hend]; rfl⟩
  | error fault =>
    rw [outcome_of_fault hts he] at h
    cases h
    refine ⟨fault.token, ?_, rfl⟩
    rw [(Scan.tokens_eq_ok_iff.mp hts).eq_concat.1] at he ⊢
    exact Parse.mem_of_tree_fault rfl he

/-- **Offsets decide nothing.** Let `f` be any function on offsets. If the tokens of a list that ends the
input move by `f`, then its tree moves by `f`, or the parser stops for the same reason at the token of the list,
moved by `f`. If a tree moves by `f`, then so does its code or the error that it has none. If code moves by `f`,
then it has the same result, or the same failure, at the offset that `f` gives.

Therefore source texts with the same lexemes come to the same: they have the same value, or the same
error, each at its own one of two corresponding tokens, or the same failure. -/
theorem offsets_decide_nothing :
    (∀ (f : Int → Int) (ts : List Token) (stop : Token), stop.isEnd = true →
      Parse.tree ((ts ++ [stop]).map (Token.relocate f)) =
          (Parse.tree (ts ++ [stop])).bimap (Parse.Fault.relocate f) (Expr.relocate f) ∧
        ∀ fault, Parse.tree (ts ++ [stop]) = .error fault → fault.token ∈ ts ++ [stop]) ∧
    (∀ (f : Int → Int) (e : Expr),
      code (e.relocate f) = (code e).bimap (Failure.relocate f) (List.map (Instr.relocate f))) ∧
    (∀ (f : Int → Int) (program : List Instr),
      value (program.map (Instr.relocate f)) = (value program).mapError (Failure.relocate f)) ∧
    ∀ (o₁ o₂ : Options) (s₁ s₂ : String) (ts₁ ts₂ : List Token), Scan.tokens s₁ = .ok ts₁ →
      Scan.tokens s₂ = .ok ts₂ → ts₁.map Token.lexeme = ts₂.map Token.lexeme →
        (∀ v, Yields o₁ s₁ v ↔ Yields o₂ s₂ v) ∧
        (∀ cause place, Reports o₁ s₁ cause place → ∃ (i : Nat) (t₁ t₂ : Token), ts₁[i]? = some t₁ ∧
          ts₂[i]? = some t₂ ∧ place = some ⟨t₁.position, t₁.isEnd⟩ ∧
          Reports o₂ s₂ cause (some ⟨t₂.position, t₂.isEnd⟩)) ∧
        ∀ failure, (calculate o₁ s₁).result = .error failure ↔ (calculate o₂ s₂).result = .error failure := by
  refine ⟨fun f ts stop hend => ⟨Parse.tree_relocate f ts hend, fun _ => Parse.mem_of_tree_fault hend⟩,
    calculation_code_relocate, value_relocate, ?_⟩
  intro o₁ o₂ s₁ s₂ ts₁ ts₂ h₁ h₂ hlexemes
  obtain ⟨f, rfl⟩ := (Scan.tokens_eq_ok_iff.mp h₁).exists_relocate_eq (Scan.tokens_eq_ok_iff.mp h₂) hlexemes
  have hout := outcome_of_relocate h₁ h₂
  refine ⟨fun v => ?_, fun cause place h => ?_, fun failure => ?_⟩
  · rw [yields_iff, yields_iff, hout]
    cases outcome s₁ <;> simp
  · obtain ⟨err, herr, rfl, rfl⟩ := reports_iff.mp h
    obtain ⟨t, ht, hposition⟩ := exists_token_of_outcome_error h₁ herr
    obtain ⟨i, hi⟩ := List.mem_iff_getElem?.mp ht
    refine ⟨i, t, t.relocate f, hi, by rw [List.getElem?_map, hi]; rfl, hposition, ?_⟩
    refine reports_iff.mpr ⟨err.relocate f, by rw [hout, herr]; rfl, rfl, ?_⟩
    rw [Error.relocate, hposition]
    rfl
  · rw [result_calculate_eq_error, result_calculate_eq_error, hout]
    cases outcome s₁ with
    | ok v => simp
    | error failure' =>
      cases failure' with
      | error err =>
        refine iff_of_false ?_ ?_
        · rintro ⟨⟨⟩, hne⟩
          exact hne err rfl
        · rintro ⟨⟨⟩, hne⟩
          exact hne (err.relocate f) rfl
      | stackMisuse | outOfDomain | floorOfNan | tooManyDigits | missingPart => exact Iff.rfl

/-- The unclosed group of `( 7` stays one at the end of input when every offset becomes zero. The texts
`7 mod` and `x` with a tab between them and `007%x` both fail at their name, which stands at the offset 6 in the
one and at the offset 4 in the other. -/
theorem offsets_decide_nothing_spelling :
    Parse.tree ([Token.ofLexeme .openParen 0, .ofLexeme (.number (.int 7)) 2, .ofLexeme .endOfInput 3].map
        (Token.relocate fun _ => 0)) = .error ⟨.unclosedGroup, .ofLexeme .endOfInput 0⟩ ∧
      Reports .standard "7 mod\tx" (.unknownName "x") (some (.ofOffset 6)) ∧
      Reports .standard "007%x" (.unknownName "x") (some (.ofOffset 4)) := by
  obtain ⟨hparse, -, -, hsources⟩ := offsets_decide_nothing
  have hts₁ : Scan.tokens "7 mod\tx" = .ok [.ofLexeme (.number (.int 7)) 0,
      .ofLexeme (.operator (.operator .modulo)) 2, .ofLexeme (.identifier "x") 6, .ofLexeme .endOfInput 7] := rfl
  have hts₂ : Scan.tokens "007%x" = .ok [.ofLexeme (.number (.int 7)) 0,
      .ofLexeme (.operator (.operator .modulo)) 3, .ofLexeme (.identifier "x") 4, .ofLexeme .endOfInput 5] := rfl
  have hreports : Reports .standard "7 mod\tx" (.unknownName "x") (some (.ofOffset 6)) :=
    reports_iff.mpr ⟨.unknownName "x" (some 6), by decide +kernel, rfl, rfl⟩
  refine ⟨?_, hreports, ?_⟩
  · have hfault : Parse.tree [Token.ofLexeme .openParen 0, .ofLexeme (.number (.int 7)) 2, .ofLexeme .endOfInput 3] =
        .error ⟨.unclosedGroup, .ofLexeme .endOfInput 3⟩ := by decide +kernel
    have hmoved := (hparse (fun _ => 0) [.ofLexeme .openParen 0, .ofLexeme (.number (.int 7)) 2]
      (.ofLexeme .endOfInput 3) rfl).1
    exact hmoved.trans (congrArg (Except.bimap _ _) hfault)
  · obtain ⟨-, herrors, -⟩ := hsources .standard .standard _ _ _ _ hts₁ hts₂ rfl
    obtain ⟨i, t₁, t₂, h₁, h₂, hplace, h⟩ := herrors _ _ hreports
    match i with
    | 2 =>
      cases h₂
      exact h
    | 0 | 1 | 3 =>
      cases h₁
      cases hplace
    | i + 4 => cases h₁

end Abacus
