import Abacus.Calculation
import Abacus.Proofs.Grammar
import Abacus.Proofs.Outcome
import Mathlib.Data.List.TakeWhile

/-!
# The parser accepts its grammar

Up to the limit on depth, the parser finds exactly the derivations of the grammar.
What it returns is derived by the tokens that it has taken; and where there is a
derivation, the parser returns its tree or stops because something is too deep.

Both directions go through the flat rows of the parser. Soundness is an induction on
the levels that may still be opened, as the parser itself recurses. Completeness is an
induction on the derivation, where a term or an expression is kept as the flat row
that the parser will collect (`Reads`).
-/

namespace Abacus.Parse

/-! ### Sweeps and folds -/

theorem checkDepth_eq (t : Token) (e : Expr) :
    checkDepth t e = .ok e ∨ checkDepth t e = .error ⟨.tooDeep, t⟩ := by
  rw [checkDepth]
  split
  · exact .inr rfl
  · exact .inl rfl

/-- A sweep is a fold, unless a node is too deep. -/
theorem sweep_eq_fold (rank : Nat) (left : Expr) (js : List Join) :
    sweep rank left js = .ok (fold rank left js) ∨ ∃ t, sweep rank left js = .error ⟨.tooDeep, t⟩ := by
  induction js generalizing left with
  | nil => exact .inl rfl
  | cons j js ih =>
    simp only [sweep, fold]
    split
    · obtain h | h := checkDepth_eq j.token (j.node left)
      · rw [show checkDepth j.token (.binary ..) = _ from h]; exact ih _
      · rw [show checkDepth j.token (.binary ..) = _ from h]; exact .inr ⟨j.token, rfl⟩
    · obtain h | ⟨t, h⟩ := ih j.right
      · rw [h]; exact .inl rfl
      · rw [h]; exact .inr ⟨t, rfl⟩

theorem toJoin_pair {j : Join} (h : Carries j.token j.operator) : toJoin j.token j.right = .ok j := by
  rw [toJoin, Token.value, show j.token.lexeme = _ from h]
  rfl

/-- A token that passes for an operator carries it. -/
theorem toJoin_eq_ok {t : Token} {right : Expr} {j : Join} (ht : t.lexeme.isOperator = true)
    (h : toJoin t right = .ok j) : j.token = t ∧ j.right = right ∧ Carries j.token j.operator := by
  cases hl : t.lexeme with
  | operator d =>
    rw [toJoin, Token.value, hl] at h
    cases d with
    | operator op => cases h; exact ⟨rfl, rfl, hl⟩
    | missing | number | text => cases h
  | endOfInput | openParen | closeParen | number | identifier | other => rw [hl] at ht; cases ht

theorem mapM_pair {P : List Token → Expr → Prop} {w : List Token} {js : List Join} (h : Row P w js) :
    (js.map Join.pair).mapM (fun (t, right) => toJoin t right) = .ok js := by
  induction h with
  | nil => rfl
  | cons hc _ _ ih =>
    rw [List.map_cons, List.mapM_cons, ih]
    simp only [Join.pair, toJoin_pair hc]
    rfl

/-- Operators that are resolved give the tree of their row, or a node is too deep. -/
theorem resolve_of_mapM (first : Expr) {run : List (Token × Expr)} {js : List Join}
    (h : run.mapM (fun (t, right) => toJoin t right) = .ok js) :
    resolve first run = .ok (treeOf first js) ∨ ∃ t, resolve first run = .error ⟨.tooDeep, t⟩ := by
  rw [resolve, h, Except.ok_bind, treeOf]
  obtain h₀ | ⟨t, h₀⟩ := sweep_eq_fold 0 first js
  · rw [h₀, Except.ok_bind]
    obtain ⟨first, js⟩ := fold 0 first js
    simp only
    obtain h₁ | ⟨t, h₁⟩ := sweep_eq_fold 1 first js
    · rw [h₁]; exact .inl rfl
    · rw [h₁]; exact .inr ⟨t, rfl⟩
  · rw [h₀]; exact .inr ⟨t, rfl⟩

/-! ### What the parser returns is derived -/

theorem expression_eq_ok {read : List Token → Except Stop (Front Expr)} {nesting : Nat}
    {ts rest : List Token} {e : Expr} (h : expression read nesting ts = .ok (e, rest)) :
    ∃ first mid run, read ts = .ok (first, mid) ∧ operatorRun read mid.length mid = .ok (run, rest) ∧
      resolve first run = .ok e := by
  rw [expression, Except.bind_eq_ok_iff] at h
  obtain ⟨⟨first, mid⟩, hf, h⟩ := h
  rw [Except.bind_eq_ok_iff] at h
  obtain ⟨⟨run, rest'⟩, hr, h⟩ := h
  simp only at h
  cases hres : resolve first run with
  | ok tree =>
    rw [hres] at h
    cases h
    exact ⟨first, mid, run, hf, hr, hres⟩
  | error fault => rw [hres] at h; cases h

/-- What a successful reading of an operand has met. -/
theorem operand_cons_eq_ok {room : Nat} {t : Token} {ts rest : List Token} {e : Expr}
    (h : operand room (t :: ts) = .ok (e, rest)) :
    (∃ value, t.lexeme = .number value ∧ e = .number t.position value ∧ rest = ts) ∨
    (∃ name, t.lexeme = .identifier name ∧ e = .identifier t.position name ∧ rest = ts) ∨
    ∃ room', room = room' + 1 ∧
      ((t.lexeme = .openParen ∧ ∃ c nesting, c.lexeme = .closeParen ∧
          expression (operand room') nesting ts = .ok (e, c :: rest)) ∨
        (Signs t .add ∧ operand room' ts = .ok (e, rest)) ∨
        (Signs t .subtract ∧ ∃ e', operand room' ts = .ok (e', rest) ∧
          e = .unary t.position .negate e' ∧ e.depth ≤ depthLimit)) := by
  rw [operand.eq_def] at h
  cases hl : t.lexeme with
  | number value =>
    simp only [hl] at h
    cases h
    exact .inl ⟨value, rfl, rfl, rfl⟩
  | identifier name =>
    simp only [hl] at h
    cases h
    exact .inr (.inl ⟨name, rfl, rfl, rfl⟩)
  | openParen =>
    simp only [hl] at h
    cases room with
    | zero => cases h
    | succ room =>
      simp only [Except.bind_eq_ok_iff] at h
      obtain ⟨⟨e', mid⟩, he, h⟩ := h
      cases mid with
      | nil => cases h
      | cons c mid =>
        rw [closeGroup] at h
        split at h
        · rename_i hc
          cases h
          exact .inr (.inr ⟨room, rfl, .inl ⟨rfl, c, _, hc, he⟩⟩)
        · cases h
  | operator d =>
    simp only [hl] at h
    split at h
    · cases h
    · rename_i hd
      exact .inr (.inr ⟨_, rfl, .inr (.inl ⟨⟨d, hl, hd⟩, h⟩)⟩)
    · cases h
    · rename_i hd
      rw [Except.bind_eq_ok_iff] at h
      obtain ⟨⟨e', mid⟩, he, h⟩ := h
      simp only [checkDepth] at h
      split at h
      · rename_i node hnode
        cases h
        split at hnode
        · cases hnode
        · rename_i hdepth
          cases hnode
          exact .inr (.inr ⟨_, rfl, .inr (.inr ⟨⟨d, hl, hd⟩, e', he, rfl, Nat.le_of_not_lt hdepth⟩)⟩)
      · cases h
    · cases h
  | endOfInput | closeParen | other =>
    simp only [hl] at h
    cases h

theorem resolve_eq_ok {first e : Expr} {run : List (Token × Expr)} (h : resolve first run = .ok e) :
    ∃ js, run.mapM (fun (t, right) => toJoin t right) = .ok js ∧ e = treeOf first js := by
  obtain ⟨js, hjs, -⟩ := Except.bind_eq_ok_iff.mp h
  refine ⟨js, hjs, ?_⟩
  obtain h' | ⟨t, h'⟩ := resolve_of_mapM first hjs
  · rw [h'] at h; cases h; rfl
  · rw [h'] at h; cases h

section Sound

variable {P : List Token → Expr → Prop} {read : List Token → Except Stop (Front Expr)}

/-- Operators that were read, and that are operators, make a row. -/
theorem operatorRun_sound (hread : ∀ ts e rest, read ts = .ok (e, rest) → ∃ w, ts = w ++ rest ∧ P w e)
    {fuel : Nat} {ts rest : List Token} {run : List (Token × Expr)} {js : List Join}
    (h : operatorRun read fuel ts = .ok (run, rest))
    (hjs : run.mapM (fun (t, right) => toJoin t right) = .ok js) : ∃ w, ts = w ++ rest ∧ Row P w js := by
  induction fuel generalizing ts run js with
  | zero =>
    cases ts <;> (cases h; cases hjs; exact ⟨[], rfl, .nil⟩)
  | succ fuel ih =>
    cases ts with
    | nil => cases h; cases hjs; exact ⟨[], rfl, .nil⟩
    | cons t ts =>
      rw [operatorRun] at h
      split at h
      · rename_i ht
        obtain ⟨⟨right, mid⟩, hright, h⟩ := Except.bind_eq_ok_iff.mp h
        obtain ⟨⟨run', rest'⟩, hrun, h⟩ := Except.bind_eq_ok_iff.mp h
        cases h
        rw [List.mapM_cons] at hjs
        obtain ⟨j, hj, hjs⟩ := Except.bind_eq_ok_iff.mp hjs
        obtain ⟨js', hjs', h⟩ := Except.bind_eq_ok_iff.mp hjs
        cases h
        obtain ⟨v, rfl, hv⟩ := hread _ _ _ hright
        obtain ⟨w, rfl, hw⟩ := ih hrun hjs'
        obtain ⟨rfl, rfl, hc⟩ := toJoin_eq_ok ht hj
        exact ⟨j.token :: (v ++ w), by simp, .cons hc hv hw⟩
      · cases h; cases hjs; exact ⟨[], rfl, .nil⟩

/-- An expression that was read is a flat string, and its tree is that of the row. -/
theorem expression_sound (hread : ∀ ts e rest, read ts = .ok (e, rest) → ∃ w, ts = w ++ rest ∧ P w e)
    {nesting : Nat} {ts rest : List Token} {e : Expr} (h : expression read nesting ts = .ok (e, rest)) :
    ∃ w first js, ts = w ++ rest ∧ Flat P w first js ∧ e = treeOf first js := by
  obtain ⟨first, mid, run, hf, hr, hres⟩ := expression_eq_ok h
  obtain ⟨js, hjs, he⟩ := resolve_eq_ok hres
  obtain ⟨u, rfl, hu⟩ := hread _ _ _ hf
  obtain ⟨v, rfl, hv⟩ := operatorRun_sound hread hr hjs
  exact ⟨u ++ v, first, js, by simp, ⟨u, v, rfl, hu, hv⟩, he⟩

end Sound

/-- An operand that was read is a primary. -/
theorem operand_sound (room : Nat) (ts : List Token) (e : Expr) (rest : List Token)
    (h : operand room ts = .ok (e, rest)) : ∃ w, ts = w ++ rest ∧ Derives .primary w e := by
  cases ts with
  | nil => rw [operand.eq_def] at h; cases h
  | cons t ts =>
    obtain ⟨value, ht, rfl, rfl⟩ | ⟨name, ht, rfl, rfl⟩ | ⟨room', rfl, hin⟩ := operand_cons_eq_ok h
    · exact ⟨[t], rfl, .number ht⟩
    · exact ⟨[t], rfl, .identifier ht⟩
    -- a group or a sign: what is inside was read with one level less
    obtain ⟨ht, c, nesting, hc, he⟩ | ⟨ht, he⟩ | ⟨ht, e', he, rfl, -⟩ := hin
    · obtain ⟨w, first, js, rfl, hw, rfl⟩ := expression_sound (operand_sound room') he
      exact ⟨t :: (w ++ [c]), by simp, .group ht hw.derives hc⟩
    · obtain ⟨w, rfl, hw⟩ := operand_sound room' _ _ _ he
      exact ⟨t :: w, rfl, .plus ht hw⟩
    · obtain ⟨w, rfl, hw⟩ := operand_sound room' _ _ _ he
      exact ⟨t :: w, rfl, .minus ht hw⟩
termination_by room

/-! ### What is derived the parser returns -/

/-- The reading gives a result, unless something is too deep. -/
def Meets {α : Type} (x : Except Stop α) (a : α) : Prop :=
  x = .ok a ∨ ∃ stop, x = .error stop ∧ stop.fault.cause = .tooDeep

theorem Meets.bind {α β : Type} {x : Except Stop α} {f : α → Except Stop β} {a : α} {b : β}
    (hx : Meets x a) (hf : Meets (f a) b) : Meets (x >>= f) b := by
  obtain rfl | ⟨stop, rfl, hstop⟩ := hx
  · exact hf
  · exact .inr ⟨stop, rfl, hstop⟩

/-- Whatever follows the tokens `w`, and however many levels may be opened, an operand is
read off them and has the tree `e`. -/
def ReadsOperand (w : List Token) (e : Expr) : Prop :=
  ∀ room rest, Meets (operand room (w ++ rest)) (e, rest)

/-- What the parser makes of a string of the grammar: it reads an operand at once, and for
the rest it collects a row with the right tree. -/
def Reads : Nonterminal → List Token → Expr → Prop
  | .primary, w, e => ReadsOperand w e
  | .term, w, e => ∃ first js, Flat ReadsOperand w first js ∧ fold 0 first js = (e, [])
  | .expr, w, e => ∃ first js, Flat ReadsOperand w first js ∧ treeOf first js = e

/-- A row ends at a closing parenthesis and at the end of the input. -/
theorem head_not_isOperator {t : Token} (h : t.lexeme = .closeParen ∨ t.isEnd = true) (rest : List Token) :
    ∀ u ∈ (t :: rest).head?, u.lexeme.isOperator = false := by
  rintro u ⟨⟩
  rw [Token.isEnd, decide_eq_true_eq] at h
  rcases h with h | h <;> rw [h] <;> rfl

/-- Where no operator stands at the front, no row is read. -/
theorem operatorRun_of_head {read : List Token → Except Stop (Front Expr)} {rest : List Token}
    (hrest : ∀ t ∈ rest.head?, t.lexeme.isOperator = false) (fuel : Nat) :
    operatorRun read fuel rest = .ok ([], rest) := by
  cases rest with
  | nil => cases fuel <;> rfl
  | cons t rest =>
    cases fuel with
    | zero => rfl
    | succ fuel => simp [operatorRun, hrest t rfl]

/-- A row is read to its end when no operator follows it. -/
theorem Row.operatorRun {w : List Token} {js : List Join} (h : Row ReadsOperand w js) (room : Nat)
    {rest : List Token} (hrest : ∀ t ∈ rest.head?, t.lexeme.isOperator = false) {fuel : Nat}
    (hfuel : (w ++ rest).length ≤ fuel) :
    Meets (operatorRun (operand room) fuel (w ++ rest)) (js.map Join.pair, rest) := by
  induction h generalizing fuel with
  | nil => exact .inl (operatorRun_of_head hrest fuel)
  | @cons v w j js hc hr _ ih =>
    cases fuel with
    | zero => simp at hfuel
    | succ fuel =>
      have hfuel' : (w ++ rest).length ≤ fuel := by simp at hfuel ⊢; omega
      rw [List.cons_append, Parse.operatorRun, if_pos hc.isOperator, List.append_assoc]
      refine (hr room (w ++ rest)).bind ?_
      exact (ih hfuel').bind (.inl rfl)

/-- A flat string is read as an expression when no operator follows it. -/
theorem Flat.expression {w : List Token} {first : Expr} {js : List Join} (h : Flat ReadsOperand w first js)
    (room nesting : Nat) {rest : List Token} (hrest : ∀ t ∈ rest.head?, t.lexeme.isOperator = false) :
    Meets (expression (operand room) nesting (w ++ rest)) (treeOf first js, rest) := by
  obtain ⟨u, v, rfl, hu, hv⟩ := h
  rw [Parse.expression, List.append_assoc]
  refine (hu room (v ++ rest)).bind ((hv.operatorRun room hrest Nat.le.refl).bind ?_)
  simp only
  obtain hres | ⟨t, hres⟩ := resolve_of_mapM first (mapM_pair hv)
  · rw [hres]; exact .inl rfl
  · rw [hres]; exact .inr ⟨_, rfl, rfl⟩

/-- Every string of the grammar is read as its tree. -/
theorem Derives.reads {n : Nonterminal} {w : List Token} {e : Expr} (h : Derives n w e) : Reads n w e := by
  induction h with
  | ofTerm _ ih => exact Unfolds.ofTerm (P := ReadsOperand) ih
  | sum _ hc hop _ ihl ihr => exact Unfolds.sum (P := ReadsOperand) ihl hc hop ihr
  | ofPrimary _ ih => exact Unfolds.ofPrimary (P := ReadsOperand) ih
  | product _ hc hop _ ihl ihr => exact Unfolds.product (P := ReadsOperand) ihl hc hop ihr
  | number ht | identifier ht =>
    intro room rest
    rw [operand.eq_def]
    simp only [List.cons_append, ht]
    exact .inl rfl
  | @group o c w e ho _ hc ih =>
    obtain ⟨first, js, hflat, rfl⟩ := ih
    intro room rest
    rw [operand.eq_def]
    simp only [List.cons_append, List.append_assoc, List.nil_append, ho]
    cases room with
    | zero => exact .inr ⟨_, rfl, rfl⟩
    | succ room =>
      have hrest := head_not_isOperator (.inl hc) rest
      exact (hflat.expression room _ hrest).bind (.inl (by simp [closeGroup, hc]))
  | plus hs _ ih =>
    intro room rest
    obtain ⟨d, hd, hop⟩ := hs
    rw [operand.eq_def]
    simp only [List.cons_append, hd, hop]
    cases room with
    | zero => exact .inr ⟨_, rfl, rfl⟩
    | succ room => exact ih room rest
  | @minus t w e hs _ ih =>
    intro room rest
    obtain ⟨d, hd, hop⟩ := hs
    rw [operand.eq_def]
    simp only [List.cons_append, hd, hop]
    cases room with
    | zero => exact .inr ⟨_, rfl, rfl⟩
    | succ room =>
      refine (ih room rest).bind ?_
      simp only
      obtain h | h := checkDepth_eq t (.unary t.position .negate e)
      · rw [h]; exact .inl rfl
      · rw [h]; exact .inr ⟨_, rfl, rfl⟩

/-! ### Whole lists of tokens -/

/-- The tokens before the first end of input, which a list has at the latest when it is
closed. -/
def body (ts : List Token) : List Token := (close ts).takeWhile fun t => !t.isEnd

theorem exists_isEnd_close (ts : List Token) : ∃ t ∈ close ts, t.isEnd = true := by
  rw [close]
  split
  · exact ⟨_, List.mem_singleton_self _, rfl⟩
  · rename_i last hlast
    split
    · rename_i hend
      exact ⟨last, List.mem_of_getLast? hlast, hend⟩
    · exact ⟨_, List.mem_append_right _ (List.mem_singleton_self _), rfl⟩

/-- All that closing a list adds is an end of input. -/
theorem mem_of_mem_close {ts : List Token} {t : Token} (h : t ∈ close ts) (hend : t.isEnd = false) : t ∈ ts := by
  rw [close] at h
  split at h
  · rw [List.mem_singleton.mp h] at hend
    cases hend
  · split at h
    · exact h
    · rcases List.mem_append.mp h with h | h
      · exact h
      · rw [List.mem_singleton.mp h] at hend
        cases hend

/-- A closed list is its body, an end of input, and something that does not count. -/
theorem close_eq_body_append (ts : List Token) :
    ∃ stop more, close ts = body ts ++ stop :: more ∧ stop.isEnd = true := by
  have hsplit : body ts ++ (close ts).dropWhile (fun t => !t.isEnd) = close ts :=
    List.takeWhile_append_dropWhile
  cases hd : (close ts).dropWhile (fun t => !t.isEnd) with
  | nil =>
    obtain ⟨t, ht, hend⟩ := exists_isEnd_close ts
    have := List.dropWhile_eq_nil_iff.mp hd t ht
    simp [hend] at this
  | cons stop more =>
    refine ⟨stop, more, by rw [← hsplit, hd], ?_⟩
    have := List.head?_dropWhile_not (fun t : Token => !t.isEnd) (close ts)
    simpa [hd] using this

theorem body_eq_of_close {ts w more : List Token} {stop : Token} (h : close ts = w ++ stop :: more)
    (hw : ∀ t ∈ w, t.isEnd = false) (hstop : stop.isEnd = true) : body ts = w := by
  rw [body, h, List.takeWhile_append_of_pos (by simpa using hw), List.takeWhile_cons_of_neg (by simp [hstop]),
    List.append_nil]

/-- A tree that is returned was read off the tokens before the first end of input. -/
theorem expression_of_tree {ts : List Token} {e : Expr} (h : tree ts = .ok e) :
    ∃ rest, close ts = body ts ++ rest ∧ expression (operand depthLimit) 0 (close ts) = .ok (e, rest) := by
  rw [tree] at h
  split at h
  · rename_i e' rest hwhole
    cases h
    obtain ⟨⟨e', rest'⟩, hexpr, hend⟩ := Except.bind_eq_ok_iff.mp hwhole
    obtain ⟨w, first, js, hw, hflat, rfl⟩ := expression_sound (operand_sound depthLimit) hexpr
    have hderives := hflat.derives
    cases rest' with
    | nil =>
      obtain ⟨t, ht, hend'⟩ := exists_isEnd_close ts
      rw [hw, List.append_nil] at ht
      have := hderives.not_isEnd t ht
      rw [hend'] at this
      cases this
    | cons stop more =>
      simp only at hend
      split at hend
      · rename_i hstop
        cases hend
        rw [body_eq_of_close hw hderives.not_isEnd hstop]
        exact ⟨stop :: more, hw, hexpr⟩
      · cases hend
  · cases h

theorem tree_sound {ts : List Token} {e : Expr} (h : tree ts = .ok e) : Derives .expr (body ts) e := by
  obtain ⟨rest, hclose, hexpr⟩ := expression_of_tree h
  obtain ⟨w, first, js, hw, hflat, rfl⟩ := expression_sound (operand_sound depthLimit) hexpr
  rw [hclose] at hw
  rw [List.append_cancel_right hw]
  exact hflat.derives

theorem tree_complete {ts : List Token} {e : Expr} (h : Derives .expr (body ts) e) :
    tree ts = .ok e ∨ ∃ t, tree ts = .error ⟨.tooDeep, t⟩ := by
  obtain ⟨stop, more, hclose, hstop⟩ := close_eq_body_append ts
  obtain ⟨first, js, hflat, rfl⟩ := h.reads
  have hrest := head_not_isOperator (.inr hstop) more
  have hwhole : Meets (whole (close ts)) (treeOf first js, stop :: more) := by
    rw [whole, hclose]
    exact (hflat.expression depthLimit 0 hrest).bind (.inl (by simp [hstop]))
  obtain hok | ⟨⟨⟨cause, t⟩, rest, nesting⟩, herr, rfl⟩ := hwhole
  · exact .inl (by rw [tree, hok])
  · exact .inr ⟨t, by rw [tree, herr]⟩

/-- **The parser accepts exactly its grammar.** A tree that it returns is derived by the
tokens before the first end of input. A tree that they derive is returned, unless
something is too deep. If they derive none, the parser reports an error of parsing. -/
theorem parser_accepts_grammar (ts : List Token) :
    (∀ e, tree ts = .ok e → Derives .expr (body ts) e) ∧
    (∀ e, Derives .expr (body ts) e → tree ts = .ok e ∨ ∃ t, tree ts = .error ⟨.tooDeep, t⟩) ∧
    ((¬ ∃ e, Derives .expr (body ts) e) →
      ∃ err : Error, Calculation.tree ts = .error (.error err) ∧ err.cause.family = .parsing) := by
  refine ⟨fun e h => tree_sound h, fun e h => tree_complete h, fun hnone => ?_⟩
  rw [Calculation.tree]
  cases htree : tree ts with
  | ok e => exact absurd ⟨e, tree_sound htree⟩ hnone
  | error fault =>
    refine ⟨.ofParse fault, rfl, ?_⟩
    obtain ⟨cause, t⟩ := fault
    cases cause <;> rfl

end Abacus.Parse
