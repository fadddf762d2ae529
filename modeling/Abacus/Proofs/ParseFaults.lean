import Abacus.Proofs.Parsing

/-!
# Where parsing stops

What a reading that failed has met, step by step as the parser goes. Most often it is a token
that does not fit where it stands. Any other fault is traced back to a token of the list: one
that opens a level too many, or one that is in the place of an operator and has a value that
is none, which happens with tokens made by hand.
-/

namespace Abacus.Parse

/-! ### Taking a failure apart -/

section Read

variable {read : List Token → Except Stop (Front Expr)}

/-- A row fails where one of its operands does. -/
theorem operatorRun_eq_error (hread : ∀ ts e rest, read ts = .ok (e, rest) → rest <:+ ts) {fuel : Nat}
    {ts : List Token} {stop : Stop} (h : operatorRun read fuel ts = .error stop) :
    ∃ ts', ts' <:+ ts ∧ read ts' = .error stop := by
  induction fuel generalizing ts with
  | zero => cases ts <;> cases h
  | succ fuel ih =>
    cases ts with
    | nil => cases h
    | cons t ts =>
      rw [operatorRun] at h
      split at h
      · obtain h | ⟨⟨right, mid⟩, hright, h⟩ := Except.bind_eq_error_iff.mp h
        · exact ⟨ts, List.suffix_cons t ts, h⟩
        obtain h | ⟨⟨run, rest⟩, -, h⟩ := Except.bind_eq_error_iff.mp h
        · obtain ⟨ts', hsuffix, hts'⟩ := ih h
          exact ⟨ts', (hsuffix.trans (hread _ _ _ hright)).trans (List.suffix_cons t ts), hts'⟩
        · cases h
      · cases h

/-- The operators of a row stand in the list that it was read off. -/
theorem mem_of_operatorRun (hread : ∀ ts e rest, read ts = .ok (e, rest) → rest <:+ ts) {fuel : Nat}
    {ts rest : List Token} {run : List (Token × Expr)} (h : operatorRun read fuel ts = .ok (run, rest)) :
    ∀ p ∈ run, p.1 ∈ ts ∧ p.1.lexeme.isOperator = true := by
  induction fuel generalizing ts run with
  | zero => cases ts <;> (cases h; simp)
  | succ fuel ih =>
    cases ts with
    | nil => cases h; simp
    | cons t ts =>
      rw [operatorRun] at h
      split at h
      · rename_i ht
        obtain ⟨⟨right, mid⟩, hright, h⟩ := Except.bind_eq_ok_iff.mp h
        obtain ⟨⟨run', rest'⟩, hrun, h⟩ := Except.bind_eq_ok_iff.mp h
        cases h
        have hmid : mid <:+ t :: ts := (hread _ _ _ hright).trans (List.suffix_cons t ts)
        refine List.forall_mem_cons.mpr ⟨⟨List.mem_cons_self .., ht⟩, fun p hp => ?_⟩
        obtain ⟨hmem, hop⟩ := ih hrun p hp
        exact ⟨hmid.mem hmem, hop⟩
      · cases h
        simp

theorem expression_eq_error {nesting : Nat} {ts : List Token} {stop : Stop}
    (h : expression read nesting ts = .error stop) :
    read ts = .error stop ∨ ∃ first mid, read ts = .ok (first, mid) ∧
      (operatorRun read mid.length mid = .error stop ∨
        ∃ run rest fault, operatorRun read mid.length mid = .ok (run, rest) ∧
          resolve first run = .error fault ∧ stop = ⟨fault, rest, nesting⟩) := by
  obtain h | ⟨⟨first, mid⟩, hfirst, h⟩ := Except.bind_eq_error_iff.mp h
  · exact .inl h
  refine .inr ⟨first, mid, hfirst, ?_⟩
  obtain h | ⟨⟨run, rest⟩, hrun, h⟩ := Except.bind_eq_error_iff.mp h
  · exact .inl h
  cases hres : resolve first run with
  | ok tree => simp [hres] at h
  | error fault =>
    simp only [hres, Except.error.injEq] at h
    exact .inr ⟨run, rest, fault, hrun, hres, h.symm⟩

end Read

/-- The token can be the first one of an operand. -/
def Begins (t : Token) : Prop :=
  (∃ value, t.lexeme = .number value) ∨ (∃ name, t.lexeme = .identifier name) ∨ t.lexeme = .openParen ∨
    Signs t .add ∨ Signs t .subtract

/-- What a failed reading of an operand has met: a token that starts none, a level too many,
or a failure behind the parenthesis or the sign. -/
theorem operand_cons_eq_error {room : Nat} {t : Token} {ts : List Token} {stop : Stop}
    (h : operand room (t :: ts) = .error stop) :
    (¬ Begins t ∧ stop = ⟨⟨.noOperand, t⟩, ts, depthLimit - room⟩) ∨
    (room = 0 ∧ stop = ⟨⟨.tooDeep, t⟩, ts, depthLimit + 1⟩) ∨
    ∃ room', room = room' + 1 ∧
      ((t.lexeme = .openParen ∧ ∃ nesting,
          (expression (operand room') nesting ts = .error stop ∨
            ∃ e rest, expression (operand room') nesting ts = .ok (e, rest) ∧
              closeGroup nesting e rest = .error stop)) ∨
        (Signs t .add ∧ operand room' ts = .error stop) ∨
        (Signs t .subtract ∧ (operand room' ts = .error stop ∨
          ∃ e rest, operand room' ts = .ok (e, rest) ∧ stop = ⟨⟨.tooDeep, t⟩, rest, depthLimit - room⟩))) := by
  rw [operand.eq_def] at h
  cases hl : t.lexeme with
  | number | identifier =>
    simp only [hl] at h
    cases h
  | openParen =>
    simp only [hl] at h
    cases room with
    | zero =>
      cases h
      exact .inr (.inl ⟨rfl, rfl⟩)
    | succ room =>
      refine .inr (.inr ⟨room, rfl, .inl ⟨rfl, depthLimit - (room + 1) + 1, ?_⟩⟩)
      obtain h | ⟨⟨e, rest⟩, he, h⟩ := Except.bind_eq_error_iff.mp h
      · exact .inl h
      · exact .inr ⟨e, rest, he, h⟩
  | operator d =>
    simp only [hl] at h
    split at h
    · cases h
      exact .inr (.inl ⟨rfl, rfl⟩)
    · rename_i hd
      exact .inr (.inr ⟨_, rfl, .inr (.inl ⟨⟨d, hl, hd⟩, h⟩)⟩)
    · cases h
      exact .inr (.inl ⟨rfl, rfl⟩)
    · rename_i room hd
      refine .inr (.inr ⟨room, rfl, .inr (.inr ⟨⟨d, hl, hd⟩, ?_⟩)⟩)
      obtain h | ⟨⟨e, rest⟩, he, h⟩ := Except.bind_eq_error_iff.mp h
      · exact .inl h
      · obtain hcheck | hcheck := checkDepth_eq t (.unary t.position .negate e)
        · simp [hcheck] at h
        · simp only [hcheck, Except.error.injEq] at h
          exact .inr ⟨e, rest, he, h.symm⟩
    · rename_i room _ _ hadd₀ hadd hsub₀ hsub
      cases h
      have hsigns : d.denoted? ≠ some .add ∧ d.denoted? ≠ some .subtract := by
        cases room with
        | zero => exact ⟨fun hd => hadd₀ hd rfl, fun hd => hsub₀ hd rfl⟩
        | succ room => exact ⟨fun hd => hadd room hd rfl, fun hd => hsub room hd rfl⟩
      exact .inl ⟨by simp [Begins, Signs, hl, hsigns], rfl⟩
  | endOfInput | closeParen | other =>
    simp only [hl] at h
    cases h
    exact .inl ⟨by simp [Begins, Signs, hl], rfl⟩

/-! ### Tokens that are no operators -/

/-- The token stands in the place of an operator, and its value is none. -/
def Counterfeit (t : Token) : Prop := t.lexeme.isOperator = true ∧ t.value.operator? = none

theorem Counterfeit.not_isEnd {t : Token} (h : Counterfeit t) : t.isEnd = false := by
  rw [Token.isEnd, decide_eq_false_iff_not]
  intro hend
  have := h.1
  rw [hend] at this
  cases this

/-- If the fault is that a token is no operator, the token stands in the list and is none. -/
def Founded (ts : List Token) (fault : Fault) : Prop :=
  fault.cause = .noOperator → fault.token ∈ ts ∧ Counterfeit fault.token

theorem mapM_toJoin_eq_error {run : List (Token × Expr)} {fault : Fault}
    (h : run.mapM (fun (t, right) => toJoin t right) = .error fault) :
    ∃ p ∈ run, fault = ⟨.noOperator, p.1⟩ ∧ p.1.value.operator? = none := by
  induction run with
  | nil => cases h
  | cons p run ih =>
    rw [List.mapM_cons] at h
    obtain h | ⟨j, -, h⟩ := Except.bind_eq_error_iff.mp h
    · refine ⟨p, List.mem_cons_self .., ?_⟩
      simp only [toJoin] at h
      split at h
      · cases h
      · rename_i hnone
        cases h
        exact ⟨rfl, hnone⟩
    · obtain h | ⟨js, -, h⟩ := Except.bind_eq_error_iff.mp h
      · obtain ⟨q, hq, hfault⟩ := ih h
        exact ⟨q, List.mem_cons_of_mem _ hq, hfault⟩
      · cases h

/-- What can go wrong with a row that was read: a node is too deep, or a token is no operator. -/
theorem resolve_eq_error {first : Expr} {run : List (Token × Expr)} {fault : Fault}
    (h : resolve first run = .error fault) :
    (∃ t, fault = ⟨.tooDeep, t⟩) ∨ ∃ p ∈ run, fault = ⟨.noOperator, p.1⟩ ∧ p.1.value.operator? = none := by
  cases hjs : run.mapM (fun (t, right) => toJoin t right) with
  | ok js =>
    obtain h' | ⟨t, h'⟩ := resolve_of_mapM first hjs
    · rw [h'] at h
      cases h
    · rw [h'] at h
      cases h
      exact .inl ⟨t, rfl⟩
  | error fault' =>
    rw [resolve, hjs] at h
    cases h
    exact .inr (mapM_toJoin_eq_error hjs)

/-! ### The token of a row that cannot be resolved -/

theorem token_of_sweep_fault {rank : Nat} {left : Expr} {js : List Join} {fault : Fault}
    (h : sweep rank left js = .error fault) : fault.token ∈ js.map Join.token := by
  induction js generalizing left with
  | nil => cases h
  | cons j js ih =>
    rw [List.map_cons]
    rw [sweep] at h
    split at h
    · obtain h | ⟨node, -, h⟩ := Except.bind_eq_error_iff.mp h
      · rw [checkDepth] at h
        split at h <;> cases h
        exact List.mem_cons_self ..
      · exact List.mem_cons_of_mem _ (ih h)
    · obtain h | ⟨⟨right, rest⟩, -, h⟩ := Except.bind_eq_error_iff.mp h
      · exact List.mem_cons_of_mem _ (ih h)
      · cases h

/-- A sweep leaves some of the operators, each with its token. -/
theorem tokens_of_sweep {rank : Nat} {left e : Expr} {js rest : List Join} (h : sweep rank left js = .ok (e, rest)) :
    (rest.map Join.token).Sublist (js.map Join.token) := by
  induction js generalizing left e rest with
  | nil =>
    cases h
    exact List.Sublist.refl _
  | cons j js ih =>
    rw [sweep] at h
    split at h
    · obtain ⟨node, -, h⟩ := Except.bind_eq_ok_iff.mp h
      exact (ih h).cons _
    · obtain ⟨⟨right, rest'⟩, hrest, h⟩ := Except.bind_eq_ok_iff.mp h
      cases h
      exact (ih hrest).cons_cons _

theorem tokens_of_mapM_toJoin {run : List (Token × Expr)} {js : List Join}
    (h : run.mapM (fun (t, right) => toJoin t right) = .ok js) : js.map Join.token = run.map Prod.fst := by
  induction run generalizing js with
  | nil =>
    cases h
    rfl
  | cons p run ih =>
    rw [List.mapM_cons] at h
    obtain ⟨j, hj, h⟩ := Except.bind_eq_ok_iff.mp h
    obtain ⟨js', hjs', h⟩ := Except.bind_eq_ok_iff.mp h
    cases h
    have htoken : j.token = p.1 := by
      simp only [toJoin] at hj
      split at hj <;> cases hj
      rfl
    rw [List.map_cons, List.map_cons, htoken, ih hjs']

/-- What goes wrong with a row that was read goes wrong at one of its operators. -/
theorem token_of_resolve {first : Expr} {run : List (Token × Expr)} {fault : Fault}
    (h : resolve first run = .error fault) : fault.token ∈ run.map Prod.fst := by
  rw [resolve] at h
  obtain h | ⟨js, hjs, h⟩ := Except.bind_eq_error_iff.mp h
  · obtain ⟨p, hp, rfl, -⟩ := mapM_toJoin_eq_error h
    exact List.mem_map_of_mem hp
  rw [← tokens_of_mapM_toJoin hjs]
  obtain h | ⟨⟨first', js'⟩, hsweep, h⟩ := Except.bind_eq_error_iff.mp h
  · exact token_of_sweep_fault h
  obtain h | ⟨⟨e, rest⟩, -, h⟩ := Except.bind_eq_error_iff.mp h
  · exact (tokens_of_sweep hsweep).mem (token_of_sweep_fault h)
  · cases h

/-! ### Tracing a fault -/

/-- The fault is that a token does not fit where it stands. -/
def Cause.Misfit : Cause → Prop
  | .noOperand | .unclosedGroup | .surplus => True
  | .noOperator | .tooDeep => False

/-- The fault is a misfit, or its token stands in the list; if it is that the token is no operator, the
token is none. -/
def Traced (ts : List Token) (fault : Fault) : Prop :=
  fault.cause.Misfit ∨ (fault.token ∈ ts ∧ (fault.cause = .noOperator → Counterfeit fault.token))

theorem Traced.suffix {ts ts' : List Token} {fault : Fault} (h : Traced ts' fault) (hs : ts' <:+ ts) :
    Traced ts fault := h.imp_right fun h => ⟨hs.mem h.1, h.2⟩

theorem traced_tooDeep {ts : List Token} {t : Token} (h : t ∈ ts) : Traced ts ⟨.tooDeep, t⟩ :=
  .inr ⟨h, by simp⟩

theorem traced_of_resolve {first : Expr} {run : List (Token × Expr)} {ts : List Token} {fault : Fault}
    (hrun : ∀ p ∈ run, p.1 ∈ ts ∧ p.1.lexeme.isOperator = true) (h : resolve first run = .error fault) :
    Traced ts fault := by
  refine .inr ⟨?_, fun hcause => ?_⟩
  · obtain ⟨p, hp, htoken⟩ := List.mem_map.mp (token_of_resolve h)
    rw [← htoken]
    exact (hrun p hp).1
  · obtain ⟨t, rfl⟩ | ⟨p, hp, rfl, hnone⟩ := resolve_eq_error h
    · cases hcause
    · exact ⟨(hrun p hp).2, hnone⟩

theorem traced_of_expression {read : List Token → Except Stop (Front Expr)}
    (hread : ∀ ts e rest, read ts = .ok (e, rest) → rest <:+ ts)
    (htraced : ∀ ts stop, read ts = .error stop → Traced ts stop.fault) {nesting : Nat} {ts : List Token}
    {stop : Stop} (h : expression read nesting ts = .error stop) : Traced ts stop.fault := by
  obtain h | ⟨first, mid, hfirst, hrun⟩ := expression_eq_error h
  · exact htraced ts stop h
  have hmid := hread _ _ _ hfirst
  obtain h | ⟨run, rest, fault, hrun, hres, rfl⟩ := hrun
  · obtain ⟨ts', hsuffix, hts'⟩ := operatorRun_eq_error hread h
    exact (htraced ts' stop hts').suffix (hsuffix.trans hmid)
  · exact (traced_of_resolve (mem_of_operatorRun hread hrun) hres).suffix hmid

theorem suffix_of_operand (room : Nat) (ts : List Token) (e : Expr) (rest : List Token)
    (h : operand room ts = .ok (e, rest)) : rest <:+ ts := by
  obtain ⟨w, rfl, -⟩ := operand_sound room ts e rest h
  exact List.suffix_append w rest

theorem traced_of_operand (room : Nat) (ts : List Token) (stop : Stop) (h : operand room ts = .error stop) :
    Traced ts stop.fault := by
  cases ts with
  | nil =>
    rw [operand.eq_def] at h
    cases h
    exact .inl trivial
  | cons t ts =>
    obtain ⟨-, rfl⟩ | ⟨-, rfl⟩ | ⟨room', rfl, hin⟩ := operand_cons_eq_error h
    · exact .inl trivial
    · exact traced_tooDeep (List.mem_cons_self ..)
    have hsuffix : ts <:+ t :: ts := List.suffix_cons t ts
    obtain ⟨-, nesting, h | ⟨e, rest, -, h⟩⟩ | ⟨-, h⟩ | ⟨-, h | ⟨e, rest, -, rfl⟩⟩ := hin
    · exact (traced_of_expression (suffix_of_operand room') (traced_of_operand room') h).suffix hsuffix
    · rw [closeGroup.eq_def] at h
      split at h
      · split at h
        · cases h
        · cases h
          exact .inl trivial
      · cases h
        exact .inl trivial
    · exact (traced_of_operand room' ts stop h).suffix hsuffix
    · exact (traced_of_operand room' ts stop h).suffix hsuffix
    · exact traced_tooDeep (List.mem_cons_self ..)
termination_by room

theorem traced_of_whole {ts : List Token} {stop : Stop} (h : whole ts = .error stop) : Traced ts stop.fault := by
  obtain hexpr | ⟨⟨e, rest⟩, -, hend⟩ := Except.bind_eq_error_iff.mp h
  · exact traced_of_expression (suffix_of_operand depthLimit) (traced_of_operand depthLimit) hexpr
  · cases rest with
    | nil => cases hend
    | cons t rest =>
      simp only at hend
      split at hend
      · cases hend
      · cases hend
        exact .inl trivial

/-- Where the parser finds that a token is no operator, the list holds such a token. -/
theorem founded_of_tree {ts : List Token} {fault : Fault} (h : tree ts = .error fault) : Founded ts fault := by
  rw [tree] at h
  split at h
  · cases h
  rename_i stop hwhole
  cases h
  intro hcause
  rcases traced_of_whole hwhole with hmisfit | ⟨hmem, hfalse⟩
  · rw [hcause] at hmisfit
    exact hmisfit.elim
  · exact ⟨mem_of_mem_close hmem (hfalse hcause).not_isEnd, hfalse hcause⟩

end Abacus.Parse
