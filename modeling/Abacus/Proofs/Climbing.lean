import Abacus.Proofs.DepthLimit

/-!
# Sweeping and climbing

The parser resolves a row of operators with one sweep for each rank, the tightest first. Another
way to do so takes the row in a single pass, from left to right: the right operand of an operator is
the operand behind it together with all that binds tighter than the operator, and what has been
joined is the left operand of the next one. This is precedence climbing.

Both ways end with the same tree. The argument goes from rank to rank. After the sweeps of the ranks
below `n`, what stands at the front of the row is what climbing finds below `n`, and so is what stands
behind each operator that is left (`foldsBelow_eq`). The sweep of rank `n` then meets the operators of
its rank in the order in which climbing comes to them.

The limit on depth does not spoil this. No node on the way is deeper than the tree, so the sweeps fail
exactly if the tree of the climb is too deep.

In a row each operator has its right operand with it, so that nothing can go missing. The sweeps can also
be made over a list of operands and a list of operators (`sweepsApart`). These stay in step.
-/

namespace Abacus.Parse

/-! ### Climbing -/

/-- What climbing makes of an operand and a row: it takes operators with ranks below the bound as
long as there are any, and comes back with what it has joined and the rest of the row, which is no
longer than the row. -/
def climbRow (bound : Nat) (left : Expr) :
    (js : List Join) → { row : Expr × List Join // row.2.length ≤ js.length }
  | [] => ⟨(left, []), Nat.le_refl _⟩
  | j :: js =>
    if j.operator.rank < bound then
      let inner := climbRow j.operator.rank j.right js
      let outer := climbRow bound (Join.node { j with right := inner.1.1 } left) inner.1.2
      ⟨outer.1, Nat.le_succ_of_le (Nat.le_trans outer.2 inner.2)⟩
    else ⟨(left, j :: js), Nat.le_refl _⟩
termination_by js => js.length
decreasing_by
  · exact Nat.lt_succ_self _
  · exact Nat.lt_succ_of_le inner.2

/-- What climbing joins below a rank, and the rest of the row. -/
def climbBelow (bound : Nat) (left : Expr) (js : List Join) : Expr × List Join := (climbRow bound left js).1

/-- The tree that climbing finds. There are two ranks. -/
def climb (first : Expr) (js : List Join) : Expr := (climbBelow 2 first js).1

section Climb

variable {bound : Nat} {left : Expr} {j : Join} {js : List Join}

@[simp] theorem climbBelow_nil (bound : Nat) (left : Expr) : climbBelow bound left [] = (left, []) := by
  rw [climbBelow, climbRow]

theorem climbBelow_of_lt (h : j.operator.rank < bound) :
    climbBelow bound left (j :: js) =
      climbBelow bound (Join.node { j with right := (climbBelow j.operator.rank j.right js).1 } left)
        (climbBelow j.operator.rank j.right js).2 := by
  rw [climbBelow, climbRow, if_pos h]
  rfl

theorem climbBelow_of_le (h : bound ≤ j.operator.rank) : climbBelow bound left (j :: js) = (left, j :: js) := by
  rw [climbBelow, climbRow, if_neg (Nat.not_lt.mpr h)]

theorem length_climbBelow (bound : Nat) (left : Expr) (js : List Join) :
    (climbBelow bound left js).2.length ≤ js.length := (climbRow bound left js).2

/-- Every row is climbed if the rows without their first operator are, whichever rank bounds them. -/
theorem climb_induction {motive : Nat → Expr → List Join → Prop}
    (nil : ∀ bound left, motive bound left [])
    (take : ∀ bound left j js, j.operator.rank < bound →
      motive bound (Join.node { j with right := (climbBelow j.operator.rank j.right js).1 } left)
        (climbBelow j.operator.rank j.right js).2 → motive bound left (j :: js))
    (leave : ∀ bound left j js, bound ≤ j.operator.rank → motive bound left (j :: js))
    (bound : Nat) (left : Expr) (js : List Join) : motive bound left js := by
  induction hlength : js.length using Nat.strong_induction_on generalizing left js with
  | _ length ih =>
    cases js with
    | nil => exact nil bound left
    | cons j js =>
      by_cases h : j.operator.rank < bound
      · refine take bound left j js h (ih _ ?_ _ _ rfl)
        have := length_climbBelow j.operator.rank j.right js
        rw [← hlength, List.length_cons]
        omega
      · exact leave bound left j js (Nat.not_lt.mp h)

/-- Climbing stops before an operator that does not bind tighter than the bound. -/
theorem head_climbBelow (bound : Nat) (left : Expr) (js : List Join) :
    ∀ j ∈ (climbBelow bound left js).2.head?, bound ≤ j.operator.rank := by
  induction bound, left, js using climb_induction with
  | nil bound left => simp
  | take bound left j js h ih =>
    rw [climbBelow_of_lt h]
    exact ih
  | leave bound left j js h =>
    rw [climbBelow_of_le h]
    simpa using h

/-- Climbing below a looser bound goes on where climbing below a tighter one has stopped. -/
theorem climbBelow_climbBelow {bound bound' : Nat} (hbound : bound ≤ bound') (left : Expr) (js : List Join) :
    climbBelow bound' (climbBelow bound left js).1 (climbBelow bound left js).2 = climbBelow bound' left js := by
  induction bound, left, js using climb_induction with
  | nil bound left => simp
  | take bound left j js h ih =>
    rw [climbBelow_of_lt h, climbBelow_of_lt (Nat.lt_of_lt_of_le h hbound)]
    exact ih hbound
  | leave bound left j js h => rw [climbBelow_of_le h]

end Climb

/-! ### Folds, rank by rank -/

/-- The folds of all ranks below a number, the tightest first. -/
def foldsBelow : Nat → Expr → List Join → Expr × List Join
  | 0, first, js => (first, js)
  | n + 1, first, js => fold n (foldsBelow n first js).1 (foldsBelow n first js).2

/-- What these folds make of the rest of a row, where they begin behind its first operator. -/
def foldsBehind (n : Nat) : List Join → List Join
  | [] => []
  | j :: js => { j with right := (foldsBelow n j.right js).1 } :: (foldsBelow n j.right js).2

theorem foldsBehind_zero (js : List Join) : foldsBehind 0 js = js := by
  cases js <;> rfl

/-- One rank more: the fold of a rank does to a row that is folded below it what climbing does. -/
theorem fold_foldsBehind {n : Nat}
    (hbelow : ∀ left js, foldsBelow n left js =
      ((climbBelow n left js).1, foldsBehind n (climbBelow n left js).2))
    (left : Expr) (js : List Join) (hhead : ∀ j ∈ js.head?, n ≤ j.operator.rank) :
    fold n left (foldsBehind n js) =
      ((climbBelow (n + 1) left js).1, foldsBehind (n + 1) (climbBelow (n + 1) left js).2) := by
  induction hlength : js.length using Nat.strong_induction_on generalizing left js with
  | _ length ih =>
    cases js with
    | nil => simp [foldsBehind, fold]
    | cons j js =>
      have hj : n ≤ j.operator.rank := hhead j rfl
      -- behind the operator, the folds below `n` have come as far as climbing below `n`
      have hright := hbelow j.right js
      simp only [foldsBehind, fold, hright]
      by_cases hrank : j.operator.rank = n
      · rw [if_pos hrank, climbBelow_of_lt (by omega), hrank]
        refine ih _ ?_ _ _ (head_climbBelow n j.right js) rfl
        have := length_climbBelow n j.right js
        rw [← hlength, List.length_cons]
        omega
      · rw [if_neg hrank, climbBelow_of_le (by omega)]
        simp only [foldsBehind, foldsBelow, hright]

/-- After the folds below a rank, the front of a row and what stands behind each operator that is
left are what climbing finds below the rank. -/
theorem foldsBelow_eq (n : Nat) (left : Expr) (js : List Join) :
    foldsBelow n left js = ((climbBelow n left js).1, foldsBehind n (climbBelow n left js).2) := by
  induction n generalizing left js with
  | zero =>
    cases js with
    | nil => simp [foldsBelow, foldsBehind]
    | cons j js => rw [climbBelow_of_le (Nat.zero_le _), foldsBehind_zero, foldsBelow]
  | succ n ih =>
    rw [foldsBelow, ih left js, fold_foldsBehind ih _ _ (head_climbBelow n left js),
      climbBelow_climbBelow (Nat.le_succ n)]

/-- No operator is left when climbing has gone through both ranks. -/
theorem climbBelow_two_snd (first : Expr) (js : List Join) : (climbBelow 2 first js).2 = [] := by
  rw [List.eq_nil_iff_forall_not_mem]
  cases hrest : (climbBelow 2 first js).2 with
  | nil => simp
  | cons j rest =>
    have hj := head_climbBelow 2 first js j (by rw [hrest]; rfl)
    have := rank_lt_two j.operator
    omega

/-- The folds of both ranks leave the tree of the climb, and no operator. -/
theorem foldsBelow_two (first : Expr) (js : List Join) : foldsBelow 2 first js = (climb first js, []) := by
  rw [foldsBelow_eq, climbBelow_two_snd]
  rfl

/-! ### Sweeps, rank by rank -/

/-- The sweeps of all ranks below a number, the tightest first. -/
def sweepsBelow : Nat → Expr → List Join → Except Fault (Expr × List Join)
  | 0, first, js => .ok (first, js)
  | n + 1, first, js => do
    let row ← sweepsBelow n first js
    sweep n row.1 row.2

/-- The sweeps are the folds, unless a node is too deep. -/
theorem sweepsBelow_eq_foldsBelow (n : Nat) (first : Expr) (js : List Join) :
    sweepsBelow n first js = .ok (foldsBelow n first js) ∨ ∃ t, sweepsBelow n first js = .error ⟨.tooDeep, t⟩ := by
  induction n with
  | zero => exact .inl rfl
  | succ n ih =>
    rw [sweepsBelow]
    obtain h | ⟨t, h⟩ := ih
    · rw [h, Except.ok_bind]
      exact sweep_eq_fold n _ _
    · rw [h]
      exact .inr ⟨t, rfl⟩

/-- What the sweeps leave of operands within the limit is within it. -/
theorem Fits.sweepsBelow {n : Nat} {first e : Expr} {js ks : List Join} (h : Fits first js)
    (hs : sweepsBelow n first js = .ok (e, ks)) : Fits e ks := by
  induction n generalizing e ks with
  | zero =>
    cases hs
    exact h
  | succ n ih =>
    obtain ⟨row, hrow, hs⟩ := Except.bind_eq_ok_iff.mp hs
    exact (ih hrow).sweep hs

/-- If what the folds leave is within the limit, the sweeps go through. -/
theorem Fits.of_foldsBelow {n : Nat} {first : Expr} {js : List Join}
    (h : Fits (foldsBelow n first js).1 (foldsBelow n first js).2) :
    Parse.sweepsBelow n first js = .ok (foldsBelow n first js) := by
  induction n with
  | zero => rfl
  | succ n ih =>
    obtain ⟨hrow, hsweep⟩ := Fits.of_fold h
    rw [Parse.sweepsBelow, ih hrow, Except.ok_bind]
    exact hsweep

/-- The sweeps of both ranks fail exactly if the tree of the climb is too deep. -/
theorem sweepsBelow_two_eq_error_iff {first : Expr} {js : List Join} (h : Fits first js) :
    (∃ t, sweepsBelow 2 first js = .error ⟨.tooDeep, t⟩) ↔ depthLimit < (climb first js).height := by
  constructor
  · rintro ⟨t, ht⟩
    by_contra hle
    have hfits : Fits (foldsBelow 2 first js).1 (foldsBelow 2 first js).2 := by
      rw [foldsBelow_two]
      exact ⟨Nat.le_of_not_lt hle, List.forall_mem_nil _⟩
    rw [hfits.of_foldsBelow] at ht
    cases ht
  · intro hlt
    obtain hok | herror := sweepsBelow_eq_foldsBelow 2 first js
    · rw [foldsBelow_two] at hok
      exact absurd (h.sweepsBelow hok).1 (Nat.not_le.mpr hlt)
    · exact herror

/-! ### The operators that are left -/

/-- The operands of a row: the first one, and those behind its operators. -/
def rowOperands (first : Expr) (js : List Join) : List Expr := first :: js.map Join.right

/-- The operators of a row. -/
def rowOperators (js : List Join) : List Token := js.map Join.token

/-- An operator with its token, and without its operand. -/
def Join.mark (j : Join) : Token × Operator := (j.token, j.operator)

/-- A fold leaves the operators of all other ranks, in their order. -/
theorem marks_fold (rank : Nat) (left : Expr) (js : List Join) :
    (fold rank left js).2.map Join.mark = (js.map Join.mark).filter fun m => m.2.rank ≠ rank := by
  induction js generalizing left with
  | nil => rfl
  | cons j js ih =>
    by_cases hj : j.operator.rank = rank
    · simp [fold, hj, ih, Join.mark]
    · simp [fold, hj, ih, Join.mark]

/-- The folds below a number leave the operators of the ranks from there on, in their order. -/
theorem marks_foldsBelow (n : Nat) (first : Expr) (js : List Join) :
    (foldsBelow n first js).2.map Join.mark = (js.map Join.mark).filter fun m => n ≤ m.2.rank := by
  induction n with
  | zero =>
    rw [List.filter_eq_self.mpr fun m _ => decide_eq_true (Nat.zero_le _)]
    rfl
  | succ n ih =>
    rw [foldsBelow, marks_fold, ih, List.filter_filter]
    congr 1
    funext m
    rw [← Bool.decide_and, decide_eq_decide]
    omega

/-- So do the sweeps. -/
theorem marks_of_sweepsBelow {n : Nat} {first e : Expr} {js ks : List Join}
    (h : sweepsBelow n first js = .ok (e, ks)) :
    ks.map Join.mark = (js.map Join.mark).filter fun m => n ≤ m.2.rank := by
  have hrow : foldsBelow n first js = (e, ks) := by
    obtain h' | ⟨t, h'⟩ := sweepsBelow_eq_foldsBelow n first js
    · exact Except.ok.inj (h'.symm.trans h)
    · rw [h'] at h
      cases h
  have hmarks := marks_foldsBelow n first js
  rwa [hrow] at hmarks

theorem operators_of_sweepsBelow {n : Nat} {first e : Expr} {js ks : List Join}
    (h : sweepsBelow n first js = .ok (e, ks)) :
    rowOperators ks = rowOperators (js.filter fun j => n ≤ j.operator.rank) := by
  have hmarks := marks_of_sweepsBelow h
  rw [List.filter_map] at hmarks
  have htokens := congrArg (List.map Prod.fst) hmarks
  rw [List.map_map, List.map_map] at htokens
  exact htokens

/-- The sweeps leave tokens that carry their operators, if there were no others. -/
theorem carries_of_sweepsBelow {n : Nat} {first e : Expr} {js ks : List Join}
    (h : sweepsBelow n first js = .ok (e, ks)) (hjs : ∀ j ∈ js, Carries j.token j.operator) :
    ∀ k ∈ ks, Carries k.token k.operator := by
  intro k hk
  have hmark : k.mark ∈ ks.map Join.mark := List.mem_map_of_mem hk
  rw [marks_of_sweepsBelow h] at hmark
  obtain ⟨j, hj, hjk⟩ := List.mem_map.mp (List.mem_filter.mp hmark).1
  obtain ⟨htoken, hoperator⟩ := Prod.mk.inj hjk
  rw [← htoken, ← hoperator]
  exact hjs j hj

/-! ### Operands and operators apart -/

/-- Join every operator of one rank with its neighbours, with the operands and the operators in lists of their
own. What has been passed is kept with the last one at the front: the operands `done`, before the operand that is
next on the left, and the operators `kept`. -/
def sweepApart (rank : Nat) (done : List Expr) (left : Expr) (kept : List Token) :
    List (Token × Expr) → Except Fault (List Expr × List Token)
  | [] => .ok ((left :: done).reverse, kept.reverse)
  | (t, right) :: run => do
    let j ← toJoin t right
    if j.operator.rank = rank then
      let node ← checkDepth t (j.node left)
      sweepApart rank done node kept run
    else sweepApart rank (left :: done) right (t :: kept) run

/-- The sweeps of all ranks below a number over two lists. An operator without an operand behind it would be
lost, and so would an operand without an operator before it. -/
def sweepsApart : Nat → List Expr → List Token → Except Fault (List Expr × List Token)
  | 0, operands, operators => .ok (operands, operators)
  | n + 1, operands, operators => do
    let lists ← sweepsApart n operands operators
    match lists.1 with
    | [] => return lists
    | first :: rights => sweepApart n [] first [] (lists.2.zip rights)

/-- The operands and the operators of a row. -/
def apart (row : Expr × List Join) : List Expr × List Token := (rowOperands row.1 row.2, rowOperators row.2)

theorem zip_operators (js : List Join) : (rowOperators js).zip (js.map Join.right) = js.map Join.pair :=
  List.zip_map' ..

/-- A sweep over two lists does to them what the sweep does to the row. -/
theorem sweepApart_eq {js : List Join} (hjs : ∀ j ∈ js, Carries j.token j.operator) (rank : Nat) (done : List Expr)
    (left : Expr) (kept : List Token) :
    sweepApart rank done left kept (js.map Join.pair) =
      (sweep rank left js).map fun row => (done.reverse ++ (apart row).1, kept.reverse ++ (apart row).2) := by
  induction js generalizing done left kept with
  | nil => simp [sweepApart, sweep, apart, rowOperands, rowOperators, Except.map]
  | cons j js ih =>
    obtain ⟨hj, hjs⟩ := List.forall_mem_cons.mp hjs
    rw [List.map_cons, Join.pair, sweepApart, toJoin_pair hj, Except.ok_bind, sweep]
    by_cases hrank : j.operator.rank = rank
    · rw [if_pos hrank, if_pos hrank, Join.node]
      cases checkDepth j.token (.binary j.token.position (.operator j.operator) left j.right) with
      | error fault => rfl
      | ok node => exact ih hjs done node kept
    · rw [if_neg hrank, if_neg hrank, ih hjs]
      cases sweep rank j.right js with
      | error fault => rfl
      | ok row => simp [apart, rowOperands, rowOperators, Except.map, pure, Except.pure]

/-- The two lists stay in step: after each sweep they are the operands and the operators of the row. -/
theorem sweepsApart_eq {js : List Join} (hjs : ∀ j ∈ js, Carries j.token j.operator) (first : Expr) (n : Nat) :
    sweepsApart n (rowOperands first js) (rowOperators js) = (sweepsBelow n first js).map apart := by
  induction n with
  | zero => rfl
  | succ n ih =>
    rw [sweepsApart, ih, sweepsBelow]
    cases hrow : sweepsBelow n first js with
    | error fault => rfl
    | ok row =>
      have hlists := sweepApart_eq (carries_of_sweepsBelow hrow hjs) n [] row.1 []
      rw [← zip_operators] at hlists
      exact hlists

/-! ### Rows from lists -/

/-- Operands and genuine operators, one operand more than operators, make a row. -/
theorem exists_row {operands : List Expr} {operators : List Token} (hlength : operands.length = operators.length + 1)
    (hgenuine : ∀ t ∈ operators, ∃ op, Carries t op) :
    ∃ first js, rowOperands first js = operands ∧ rowOperators js = operators ∧
      ∀ j ∈ js, Carries j.token j.operator := by
  cases operands with
  | nil => cases hlength
  | cons first rights =>
    refine ⟨first, ?_⟩
    simp only [List.length_cons, Nat.add_right_cancel_iff] at hlength
    simp only [rowOperands, rowOperators, List.cons.injEq, true_and]
    induction operators generalizing rights with
    | nil => exact ⟨[], (List.length_eq_zero_iff.mp hlength).symm, rfl, List.forall_mem_nil _⟩
    | cons t operators ih =>
      cases rights with
      | nil => cases hlength
      | cons right rights =>
        obtain ⟨⟨op, hop⟩, hgenuine⟩ := List.forall_mem_cons.mp hgenuine
        obtain ⟨js, rfl, rfl, hjs⟩ := ih hgenuine rights (Nat.succ.inj hlength)
        exact ⟨⟨t, op, right⟩ :: js, rfl, rfl, List.forall_mem_cons.mpr ⟨hop, hjs⟩⟩

theorem row_of_carries {js : List Join} (h : ∀ j ∈ js, Carries j.token j.operator) :
    Row (fun _ _ => True) (rowOperators js) js := by
  induction js with
  | nil => exact .nil
  | cons j js ih =>
    obtain ⟨hj, hjs⟩ := List.forall_mem_cons.mp h
    exact Row.cons (v := []) hj trivial (ih hjs)

/-- The parser resolves a row by the sweeps of both ranks. -/
theorem resolve_eq_sweepsBelow {js : List Join} (h : ∀ j ∈ js, Carries j.token j.operator) (first : Expr) :
    resolve first ((rowOperators js).zip (js.map Join.right)) = (sweepsBelow 2 first js).map Prod.fst := by
  rw [zip_operators, resolve, mapM_pair (row_of_carries h), Except.ok_bind]
  simp only [sweepsBelow, Except.ok_bind]
  cases sweep 0 first js with
  | error fault => rfl
  | ok row =>
    simp only [Except.ok_bind]
    cases sweep 1 row.1 row.2 <;> rfl

/-- **Sweeping is climbing.** Take operands within the limit on depth, and operators between them. The sweeps
of both ranks report that a node is too deep exactly if the tree of one climb through the row is deeper than
the limit. Otherwise they end with this tree alone, with no operator left, and it is what the parser returns.
With operands and operators in two lists, the sweeps leave those of the row, so the lists never get out of step:
after the sweeps below a rank there are the operators from that rank on, and one operand more. -/
theorem sweeps_climb {operands : List Expr} {operators : List Token}
    (hlength : operands.length = operators.length + 1) (hgenuine : ∀ t ∈ operators, ∃ op, Carries t op)
    (hdepth : ∀ e ∈ operands, e.depth ≤ depthLimit) :
    ∃ first js, rowOperands first js = operands ∧ rowOperators js = operators ∧
      (∀ j ∈ js, Carries j.token j.operator) ∧
      ((∃ t, sweepsBelow 2 first js = .error ⟨.tooDeep, t⟩) ↔ depthLimit < (climb first js).depth) ∧
      ((climb first js).depth ≤ depthLimit → sweepsBelow 2 first js = .ok (climb first js, [])) ∧
      (∀ n, sweepsApart n operands operators = (sweepsBelow n first js).map apart) ∧
      (∀ n operands' operators', sweepsApart n operands operators = .ok (operands', operators') →
        operands'.length = operators'.length + 1 ∧
        operators' = rowOperators (js.filter fun j => n ≤ j.operator.rank)) ∧
      resolve first (operators.zip operands.tail) = (sweepsBelow 2 first js).map Prod.fst := by
  obtain ⟨first, js, rfl, rfl, hjs⟩ := exists_row hlength hgenuine
  simp only [Expr.depth_eq_height] at hdepth ⊢
  obtain ⟨hfirst, hrights⟩ := List.forall_mem_cons.mp hdepth
  have hfits : Fits first js := ⟨hfirst, fun j hj => hrights _ (List.mem_map_of_mem hj)⟩
  refine ⟨first, js, rfl, rfl, hjs, sweepsBelow_two_eq_error_iff hfits, fun hle => ?_, sweepsApart_eq hjs first,
    fun n operands' operators' h => ?_, resolve_eq_sweepsBelow hjs first⟩
  · obtain hok | herror := sweepsBelow_eq_foldsBelow 2 first js
    · rwa [foldsBelow_two] at hok
    · exact absurd ((sweepsBelow_two_eq_error_iff hfits).mp herror) (Nat.not_lt.mpr hle)
  · rw [sweepsApart_eq hjs] at h
    cases hrow : sweepsBelow n first js with
    | error fault =>
      rw [hrow] at h
      cases h
    | ok row =>
      rw [hrow] at h
      cases h
      exact ⟨by simp [rowOperands, rowOperators], operators_of_sweepsBelow hrow⟩

/-- The operands of `2+3*4-1`. -/
def mixedOperands : List Expr := [.number 0 (.int 2), .number 2 (.int 3), .number 4 (.int 4), .number 6 (.int 1)]

/-- The operators of `2+3*4-1`. -/
def mixedOperators : List Token :=
  [.ofLexeme (.operator (.operator .add)) 1, .ofLexeme (.operator (.operator .multiply)) 3,
    .ofLexeme (.operator (.operator .subtract)) 5]

/-- In `2+3*4-1` the product is joined first, and the sum is the left operand of the difference. -/
theorem sweeps_climb_mixed_ranks :
    ∃ first js, rowOperands first js = mixedOperands ∧ rowOperators js = mixedOperators ∧
      sweepsBelow 2 first js = .ok (climb first js, []) ∧
      climb first js = .binary 5 (.operator .subtract)
        (.binary 1 (.operator .add) (.number 0 (.int 2))
          (.binary 3 (.operator .multiply) (.number 2 (.int 3)) (.number 4 (.int 4))))
        (.number 6 (.int 1)) := by
  have hlength : mixedOperands.length = mixedOperators.length + 1 := rfl
  have hgenuine : ∀ t ∈ mixedOperators, ∃ op, Carries t op := by
    simp [mixedOperators, Carries, Token.ofLexeme]
  obtain ⟨first, js, hoperands, hoperators, -, hdeep, hok, -, -, hresolve⟩ := sweeps_climb hlength hgenuine (by decide)
  obtain rfl : first = .number 0 (.int 2) := (List.cons.inj hoperands).1
  have htree : resolve (.number 0 (.int 2)) (mixedOperators.zip mixedOperands.tail) =
      .ok (.binary 5 (.operator .subtract)
        (.binary 1 (.operator .add) (.number 0 (.int 2))
          (.binary 3 (.operator .multiply) (.number 2 (.int 3)) (.number 4 (.int 4))))
        (.number 6 (.int 1))) := by decide +kernel
  rw [htree] at hresolve
  have hle : (climb (.number 0 (.int 2)) js).depth ≤ depthLimit := by
    by_contra hlt
    obtain ⟨t, ht⟩ := hdeep.mpr (Nat.not_le.mp hlt)
    rw [ht] at hresolve
    cases hresolve
  have hsweeps := hok hle
  rw [hsweeps] at hresolve
  exact ⟨_, js, hoperands, hoperators, hsweeps, (Except.ok.inj hresolve).symm⟩

end Abacus.Parse
