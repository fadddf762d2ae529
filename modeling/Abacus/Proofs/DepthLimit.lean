import Abacus.Proofs.Height
import Abacus.Proofs.Parsing

/-!
# The limit on depth

The parser counts two things: the groups and signs that are open while it reads, and the
depth of each node that it makes. Groups and plus signs leave no node, so neither count
bounds the other.

`openings` says what is open at each token of a list, with no word on trees or on how they
are found. The limit is exact: of the strings of the grammar, the parser turns down those
where more than the limit is open at some token, and those whose tree is deeper than the
limit. In particular no node on the way to a tree is deeper than the tree itself.
-/

namespace Abacus.Parse

/-! ### What is open at a token -/

/-- What can be open around a token. -/
inductive Opening where
  /-- A group, from its opening to its closing parenthesis. -/
  | group
  /-- A sign, from its own token to the end of its operand. -/
  | sign
  deriving DecidableEq, Repr

/-- What is still open behind an operand. The signs before it end with it. -/
def settle (opened : List Opening) : List Opening := opened.dropWhile (· = .sign)

/-- What is open at each token of a list, the innermost first, if `opened` is open before the
list. An operator is a sign where an operand is due. -/
def openings (operandDue : Bool) (opened : List Opening) : List Token → List (List Opening)
  | [] => []
  | t :: ts =>
    match operandDue, t.lexeme with
    | true, .openParen => (.group :: opened) :: openings true (.group :: opened) ts
    | true, .operator _ => (.sign :: opened) :: openings true (.sign :: opened) ts
    | true, _ => opened :: openings false (settle opened) ts
    | false, .operator _ => opened :: openings true opened ts
    | false, .closeParen => opened :: openings false (settle opened.tail) ts
    | false, _ => opened :: openings false opened ts

/-- What is open at each token of an expression. -/
def openAt (ts : List Token) : List (List Opening) := openings true [] ts

/-- In `-(1)+2` the minus sign is open until the group closes. -/
example : (openAt [.ofLexeme (.operator (.operator .subtract)) 0, .ofLexeme .openParen 1,
      .ofLexeme (.number (.int 1)) 2, .ofLexeme .closeParen 3, .ofLexeme (.operator (.operator .add)) 4,
      .ofLexeme (.number (.int 2)) 5]).map List.length = [1, 2, 2, 2, 0, 0] := by decide

@[simp] theorem settle_nil : settle [] = [] := rfl

@[simp] theorem settle_group (opened : List Opening) : settle (.group :: opened) = .group :: opened := rfl

@[simp] theorem settle_sign (opened : List Opening) : settle (.sign :: opened) = settle opened := rfl

@[simp] theorem settle_settle (opened : List Opening) : settle (settle opened) = settle opened := by
  induction opened with
  | nil => rfl
  | cons o opened ih => cases o <;> simp [ih]

/-- The tokens of an operand open and close their own groups and signs, and end the signs
before them. -/
theorem Derives.openings_append {n : Nonterminal} {w : List Token} {e : Expr} (h : Derives n w e)
    (opened : List Opening) (rest : List Token) :
    openings true opened (w ++ rest) = openings true opened w ++ openings false (settle opened) rest := by
  induction h generalizing opened rest with
  | ofTerm _ ih | ofPrimary _ ih => exact ih opened rest
  | @sum v w t op l r _ hc _ _ ihl ihr | @product v w t op l r _ hc _ _ ihl ihr =>
    have ht : t.lexeme = .operator (.operator op) := hc
    rw [List.append_assoc, List.cons_append, ihl, ihl opened (t :: w)]
    simp [openings, ht, ihr (settle opened) rest]
  | number ht | identifier ht => simp [openings, ht]
  | group ho _ hc ih =>
    simp only [List.cons_append, List.append_assoc, openings, ho, ih]
    simp [hc]
  | plus ht _ ih | minus ht _ ih =>
    obtain ⟨d, hd, -⟩ := ht
    simp [openings, hd, ih (.sign :: opened) rest]

/-- At each of the tokens at most `room` groups and signs are open besides `opened`. -/
def Within (room : Nat) (opened : List Opening) (w : List Token) : Prop :=
  ∀ o ∈ openings true opened w, o.length ≤ opened.length + room

/-- One more level is open at the first of the tokens, and at all others within it. -/
theorem bounded_iff_succ {room level : Nat} {os : List (List Opening)} :
    (level + 1 ≤ level + room ∧ ∀ o ∈ os, o.length ≤ level + room) ↔
      ∃ room', room = room' + 1 ∧ ∀ o ∈ os, o.length ≤ level + 1 + room' := by
  constructor
  · rintro ⟨hroom, hos⟩
    obtain ⟨room', rfl⟩ : ∃ room', room = room' + 1 := ⟨room - 1, by omega⟩
    exact ⟨room', rfl, fun o ho => by have := hos o ho; omega⟩
  · rintro ⟨room', rfl, hos⟩
    exact ⟨by omega, fun o ho => by have := hos o ho; omega⟩

theorem within_sign {room : Nat} {opened : List Opening} {t : Token} {op : Operator} (ht : Signs t op)
    (w : List Token) :
    Within room opened (t :: w) ↔ ∃ room', room = room' + 1 ∧ Within room' (.sign :: opened) w := by
  obtain ⟨d, hd, -⟩ := ht
  simp only [Within, openings, hd, List.forall_mem_cons, List.length_cons]
  exact bounded_iff_succ

theorem within_group {room : Nat} {opened : List Opening} {o c : Token} {w : List Token} {e : Expr}
    (ho : o.lexeme = .openParen) (hw : Derives .expr w e) (hc : c.lexeme = .closeParen) :
    Within room opened (o :: (w ++ [c])) ↔ ∃ room', room = room' + 1 ∧ Within room' (.group :: opened) w := by
  simp only [Within, openings, ho, hw.openings_append, settle_group, hc, List.forall_mem_cons,
    List.forall_mem_append, List.length_cons]
  rw [← bounded_iff_succ]
  -- what is open at the closing parenthesis is open at the opening one
  exact ⟨fun h => ⟨h.1, h.2.1⟩, fun h => ⟨h.1, h.2, h.1, List.forall_mem_nil _⟩⟩

/-! ### Rows -/

theorem Row.imp {P Q : List Token → Expr → Prop} {w : List Token} {js : List Join}
    (h : Row P w js) (hPQ : ∀ v e, P v e → Q v e) : Row Q w js := by
  induction h with
  | nil => exact .nil
  | cons hc hr _ ih => exact .cons hc (hPQ _ _ hr) ih

theorem Row.mp {P : List Token → Expr → Prop} {Q : Expr → Prop} {w : List Token} {js : List Join}
    (h : Row (fun v e => Q e → P v e) w js) (hQ : ∀ j ∈ js, Q j.right) : Row P w js := by
  induction h with
  | nil => exact .nil
  | cons hc hr _ ih =>
    obtain ⟨hj, hjs⟩ := List.forall_mem_cons.mp hQ
    exact .cons hc (hr hj) (ih hjs)

theorem Flat.imp {P Q : List Token → Expr → Prop} {w : List Token} {first : Expr} {js : List Join}
    (h : Flat P w first js) (hPQ : ∀ v e, P v e → Q v e) : Flat Q w first js := by
  obtain ⟨u, v, rfl, hu, hv⟩ := h
  exact ⟨u, v, rfl, hPQ _ _ hu, hv.imp hPQ⟩

theorem Row.right {P : Expr → Prop} {w : List Token} {js : List Join} (h : Row (fun _ e => P e) w js) :
    ∀ j ∈ js, P j.right := by
  induction h with
  | nil => simp
  | cons _ hr _ ih => exact List.forall_mem_cons.mpr ⟨hr, ih⟩

/-- A row keeps within the room exactly when each of its operands does. -/
theorem row_within_iff {room : Nat} {opened : List Opening} (hs : settle opened = opened) {w : List Token}
    {js : List Join} :
    Row (fun v e => Derives .primary v e ∧ Within room opened v) w js ↔
      Row (Derives .primary) w js ∧ ∀ o ∈ openings false opened w, o.length ≤ opened.length + room := by
  have hcons {v w : List Token} {t : Token} {op : Operator} {e : Expr} (hc : Carries t op)
      (hv : Derives .primary v e) : openings false opened (t :: (v ++ w)) =
        opened :: (openings true opened v ++ openings false opened w) := by
    have ht : t.lexeme = .operator (.operator op) := hc
    simp only [openings, ht, hv.openings_append opened w, hs]
  constructor
  · intro h
    refine ⟨h.imp fun _ _ h => h.1, ?_⟩
    induction h with
    | nil => simp [openings]
    | cons hc hr _ ih =>
      rw [hcons hc hr.1]
      intro o ho
      rcases List.mem_cons.mp ho with rfl | ho
      · omega
      rcases List.mem_append.mp ho with ho | ho
      · exact hr.2 o ho
      · exact ih o ho
  · rintro ⟨h, hin⟩
    induction h with
    | nil => exact .nil
    | cons hc hr _ ih =>
      rw [hcons hc hr] at hin
      refine .cons hc ⟨hr, fun o ho => hin o ?_⟩ (ih fun o ho => hin o ?_)
      · exact List.mem_cons_of_mem _ (List.mem_append_left _ ho)
      · exact List.mem_cons_of_mem _ (List.mem_append_right _ ho)

/-- An expression keeps within the room exactly when each of its operands does. -/
theorem flat_within_iff {room : Nat} {opened : List Opening} (hs : settle opened = opened) {w : List Token}
    {first : Expr} {js : List Join} :
    Flat (fun v e => Derives .primary v e ∧ Within room opened v) w first js ↔
      Flat (Derives .primary) w first js ∧ Within room opened w := by
  have happend {u v : List Token} (hu : Derives .primary u first) :
      Within room opened (u ++ v) ↔
        Within room opened u ∧ ∀ o ∈ openings false opened v, o.length ≤ opened.length + room := by
    simp only [Within, hu.openings_append opened v, hs, List.forall_mem_append]
  constructor
  · rintro ⟨u, v, rfl, hu, hv⟩
    obtain ⟨hrow, hin⟩ := (row_within_iff hs).mp hv
    exact ⟨⟨u, v, rfl, hu.1, hrow⟩, (happend hu.1).mpr ⟨hu.2, hin⟩⟩
  · rintro ⟨⟨u, v, rfl, hu, hv⟩, hin⟩
    obtain ⟨hin₁, hin₂⟩ := (happend hu).mp hin
    exact ⟨u, v, rfl, ⟨hu, hin₁⟩, (row_within_iff hs).mpr ⟨hv, hin₂⟩⟩

/-! ### Heights of nodes -/

theorem checkDepth_eq_ok_iff {t : Token} {e node : Expr} :
    checkDepth t e = .ok node ↔ node = e ∧ e.height ≤ depthLimit := by
  rw [checkDepth, Expr.depth_eq_height]
  split
  · simp only [reduceCtorEq, false_iff, not_and]
    omega
  · simp only [Except.ok.injEq]
    exact ⟨fun h => ⟨h.symm, by omega⟩, fun h => h.1.symm⟩

/-- An operand and the operands of a row are within the limit. -/
def Fits (first : Expr) (js : List Join) : Prop :=
  first.height ≤ depthLimit ∧ ∀ j ∈ js, j.right.height ≤ depthLimit

/-- What a sweep leaves is within the limit. -/
theorem Fits.sweep {rank : Nat} {left e : Expr} {js ks : List Join} (h : Fits left js)
    (hs : sweep rank left js = .ok (e, ks)) : Fits e ks := by
  induction js generalizing left e ks with
  | nil =>
    cases hs
    exact h
  | cons j js ih =>
    obtain ⟨hleft, hjs⟩ := h
    obtain ⟨hj, hjs⟩ := List.forall_mem_cons.mp hjs
    rw [Parse.sweep] at hs
    split at hs
    · obtain ⟨node, hnode, hs⟩ := Except.bind_eq_ok_iff.mp hs
      obtain ⟨rfl, hheight⟩ := checkDepth_eq_ok_iff.mp hnode
      exact ih ⟨hheight, hjs⟩ hs
    · obtain ⟨⟨right, rest⟩, hright, hs⟩ := Except.bind_eq_ok_iff.mp hs
      cases hs
      obtain ⟨hright, hrest⟩ := ih ⟨hj, hjs⟩ hright
      exact ⟨hleft, List.forall_mem_cons.mpr ⟨hright, hrest⟩⟩

/-- If what a fold leaves is within the limit, so are all nodes on the way to it, and the
sweep goes through. -/
theorem Fits.of_fold {rank : Nat} {left : Expr} {js : List Join}
    (h : Fits (fold rank left js).1 (fold rank left js).2) :
    Fits left js ∧ Parse.sweep rank left js = .ok (fold rank left js) := by
  induction js generalizing left with
  | nil => exact ⟨h, rfl⟩
  | cons j js ih =>
    simp only [fold, Parse.sweep] at h ⊢
    split at h
    · rename_i hj
      obtain ⟨⟨hnode, hjs⟩, hsweep⟩ := ih h
      have hparts : left.height ≤ depthLimit ∧ j.right.height ≤ depthLimit := by
        rw [Join.node, Expr.height] at hnode
        omega
      refine ⟨⟨hparts.1, List.forall_mem_cons.mpr ⟨hparts.2, hjs⟩⟩, ?_⟩
      rw [if_pos hj, if_pos hj, show checkDepth j.token (.binary ..) = _ from checkDepth_eq_ok_iff.mpr ⟨rfl, hnode⟩]
      exact hsweep
    · rename_i hj
      obtain ⟨hleft, hjs⟩ := h
      obtain ⟨hright, hrest⟩ := List.forall_mem_cons.mp hjs
      obtain ⟨⟨hj', hjs⟩, hsweep⟩ := ih ⟨hright, hrest⟩
      refine ⟨⟨hleft, List.forall_mem_cons.mpr ⟨hj', hjs⟩⟩, ?_⟩
      rw [if_neg hj, if_neg hj, hsweep]
      rfl

/-- A tree that is found from operands within the limit is within it. -/
theorem height_of_resolve {first e : Expr} {run : List (Token × Expr)} {js : List Join}
    (hjs : run.mapM (fun (t, right) => toJoin t right) = .ok js) (hfits : Fits first js)
    (h : resolve first run = .ok e) : e.height ≤ depthLimit := by
  rw [resolve, hjs, Except.ok_bind] at h
  obtain ⟨⟨first, js⟩, h₀, h⟩ := Except.bind_eq_ok_iff.mp h
  obtain ⟨⟨tree, js⟩, h₁, h⟩ := Except.bind_eq_ok_iff.mp h
  cases h
  exact ((hfits.sweep h₀).sweep h₁).1

/-- If a tree is within the limit, then its operands are, and it is found from them. -/
theorem resolve_of_height {first : Expr} {run : List (Token × Expr)} {js : List Join}
    (hjs : run.mapM (fun (t, right) => toJoin t right) = .ok js) (h : (treeOf first js).height ≤ depthLimit) :
    Fits first js ∧ resolve first run = .ok (treeOf first js) := by
  have h₁ : Fits (fold 1 (fold 0 first js).1 (fold 0 first js).2).1
      (fold 1 (fold 0 first js).1 (fold 0 first js).2).2 := by
    rw [fold_fold]
    exact ⟨h, List.forall_mem_nil _⟩
  obtain ⟨hfits₀, hsweep₁⟩ := Fits.of_fold h₁
  obtain ⟨hfits, hsweep₀⟩ := Fits.of_fold hfits₀
  refine ⟨hfits, ?_⟩
  rw [resolve, hjs, Except.ok_bind, hsweep₀, Except.ok_bind]
  simp only [hsweep₁, Except.ok_bind]
  rfl

/-! ### What the parser returns keeps to the limit -/

theorem height_of_expression {read : List Token → Except Stop (Front Expr)}
    (hread : ∀ ts e rest, read ts = .ok (e, rest) → ∃ w, ts = w ++ rest ∧ e.height ≤ depthLimit)
    {nesting : Nat} {ts rest : List Token} {e : Expr} (h : expression read nesting ts = .ok (e, rest)) :
    e.height ≤ depthLimit := by
  obtain ⟨first, mid, run, hf, hr, hres⟩ := expression_eq_ok h
  obtain ⟨js, hjs, -⟩ := resolve_eq_ok hres
  obtain ⟨-, -, hfirst⟩ := hread _ _ _ hf
  obtain ⟨v, -, hv⟩ := operatorRun_sound (P := fun _ e => e.height ≤ depthLimit) hread hr hjs
  exact height_of_resolve hjs ⟨hfirst, hv.right⟩ hres

theorem height_of_operand (room : Nat) (ts : List Token) (e : Expr) (rest : List Token)
    (h : operand room ts = .ok (e, rest)) : ∃ w, ts = w ++ rest ∧ e.height ≤ depthLimit := by
  obtain ⟨w, rfl, -⟩ := operand_sound room ts e rest h
  refine ⟨w, rfl, ?_⟩
  generalize w ++ rest = ts at h
  cases ts with
  | nil => rw [operand.eq_def] at h; cases h
  | cons t ts =>
    obtain ⟨value, -, rfl, -⟩ | ⟨name, -, rfl, -⟩ | ⟨room', rfl, hin⟩ := operand_cons_eq_ok h
    · show 1 ≤ depthLimit
      decide
    · show 1 ≤ depthLimit
      decide
    obtain ⟨-, c, nesting, -, he⟩ | ⟨-, he⟩ | ⟨-, e', -, -, hdepth⟩ := hin
    · exact height_of_expression (height_of_operand room') he
    · exact (height_of_operand room' _ _ _ he).elim fun _ h => h.2
    · rwa [Expr.depth_eq_height] at hdepth
termination_by room

/-- An operand that was read opens no more groups and signs than there was room for. -/
theorem operand_within (room : Nat) (opened : List Opening) (ts : List Token) (e : Expr) (rest : List Token)
    (h : operand room ts = .ok (e, rest)) :
    ∃ w, ts = w ++ rest ∧ Derives .primary w e ∧ Within room opened w := by
  cases ts with
  | nil => rw [operand.eq_def] at h; cases h
  | cons t ts =>
    obtain ⟨value, ht, rfl, rfl⟩ | ⟨name, ht, rfl, rfl⟩ | ⟨room', rfl, hin⟩ := operand_cons_eq_ok h
    · exact ⟨[t], rfl, .number ht, by simp [Within, openings, ht]⟩
    · exact ⟨[t], rfl, .identifier ht, by simp [Within, openings, ht]⟩
    obtain ⟨ht, c, nesting, hc, he⟩ | ⟨ht, he⟩ | ⟨ht, e', he, rfl, -⟩ := hin
    · obtain ⟨w, first, js, rfl, hw, rfl⟩ := expression_sound (operand_within room' (.group :: opened)) he
      obtain ⟨hflat, hw⟩ := (flat_within_iff rfl).mp hw
      refine ⟨t :: (w ++ [c]), by simp, .group ht hflat.derives hc, (within_group ht hflat.derives hc).mpr ⟨room', rfl, hw⟩⟩
    · obtain ⟨w, rfl, hw, hin⟩ := operand_within room' (.sign :: opened) _ _ _ he
      exact ⟨t :: w, rfl, .plus ht hw, (within_sign ht w).mpr ⟨room', rfl, hin⟩⟩
    · obtain ⟨w, rfl, hw, hin⟩ := operand_within room' (.sign :: opened) _ _ _ he
      exact ⟨t :: w, rfl, .minus ht hw, (within_sign ht w).mpr ⟨room', rfl, hin⟩⟩
termination_by room

/-! ### What keeps to the limit the parser returns -/

/-- A row whose operands can be read is read to its end when no operator follows it. -/
theorem operatorRun_of_row {read : List Token → Except Stop (Front Expr)} {w rest : List Token} {js : List Join}
    (h : Row (fun v e => ∀ rest, read (v ++ rest) = .ok (e, rest)) w js)
    (hrest : ∀ t ∈ rest.head?, t.lexeme.isOperator = false) {fuel : Nat} (hfuel : (w ++ rest).length ≤ fuel) :
    operatorRun read fuel (w ++ rest) = .ok (js.map Join.pair, rest) := by
  induction h generalizing fuel with
  | nil => exact operatorRun_of_head hrest fuel
  | @cons v w j js hc hr _ ih =>
    cases fuel with
    | zero => simp at hfuel
    | succ fuel =>
      have hfuel' : (w ++ rest).length ≤ fuel := by simp at hfuel ⊢; omega
      rw [List.cons_append, operatorRun, if_pos hc.isOperator, List.append_assoc, hr, Except.ok_bind]
      simp only [ih hfuel', Except.ok_bind]
      rfl

/-- An expression whose operands can be read is read when its tree is within the limit and
no operator follows it. -/
theorem expression_of_flat {read : List Token → Except Stop (Front Expr)} {w rest : List Token} {first : Expr}
    {js : List Join}
    (h : Flat (fun v e => e.height ≤ depthLimit → ∀ rest, read (v ++ rest) = .ok (e, rest)) w first js)
    (hheight : (treeOf first js).height ≤ depthLimit) (nesting : Nat)
    (hrest : ∀ t ∈ rest.head?, t.lexeme.isOperator = false) :
    expression read nesting (w ++ rest) = .ok (treeOf first js, rest) := by
  obtain ⟨u, v, rfl, hu, hv⟩ := h
  obtain ⟨⟨hfirst, hjs⟩, hres⟩ := resolve_of_height (mapM_pair hv) hheight
  rw [expression, List.append_assoc, hu hfirst, Except.ok_bind]
  simp only [operatorRun_of_row (hv.mp hjs) hrest Nat.le.refl, Except.ok_bind, hres]

/-- An operand within the limits is read. -/
theorem operand_of_within {room : Nat} {opened : List Opening} {w : List Token} {e : Expr}
    (h : Derives .primary w e) (hin : Within room opened w) (hheight : e.height ≤ depthLimit) (rest : List Token) :
    operand room (w ++ rest) = .ok (e, rest) := by
  cases h with
  | number ht | identifier ht =>
    rw [operand.eq_def]
    simp only [List.cons_append, List.nil_append, ht]
  | @group o c w e ho hw hc =>
    obtain ⟨room', rfl, hin'⟩ := (within_group ho hw hc).mp hin
    obtain ⟨first, js, hflat, rfl⟩ := hw.unfolds
    have hreads : Flat (fun v e => e.height ≤ depthLimit → ∀ rest, operand room' (v ++ rest) = .ok (e, rest))
        w first js :=
      ((flat_within_iff rfl).mpr ⟨hflat, hin'⟩).imp fun v e h => operand_of_within h.1 h.2
    have hrest := head_not_isOperator (.inl hc) rest
    rw [operand.eq_def]
    simp only [List.cons_append, List.append_assoc, List.nil_append, ho]
    rw [expression_of_flat hreads hheight _ hrest, Except.ok_bind]
    simp only [closeGroup, hc, if_true]
  | plus ht hw =>
    obtain ⟨room', rfl, hin'⟩ := (within_sign ht _).mp hin
    obtain ⟨d, hd, hop⟩ := ht
    rw [operand.eq_def]
    simp only [List.cons_append, hd, hop]
    exact operand_of_within hw hin' hheight rest
  | @minus t w e ht hw =>
    obtain ⟨room', rfl, hin'⟩ := (within_sign ht _).mp hin
    obtain ⟨d, hd, hop⟩ := ht
    have he : e.height ≤ depthLimit := by
      rw [Expr.height] at hheight
      omega
    rw [operand.eq_def]
    simp only [List.cons_append, hd, hop]
    rw [operand_of_within hw hin' he rest, Except.ok_bind]
    simp only [checkDepth_eq_ok_iff.mpr ⟨rfl, hheight⟩]
termination_by room

/-! ### Whole lists of tokens -/

theorem height_of_tree {ts : List Token} {e : Expr} (h : tree ts = .ok e) : e.height ≤ depthLimit := by
  obtain ⟨rest, -, hexpr⟩ := expression_of_tree h
  exact height_of_expression (height_of_operand depthLimit) hexpr

theorem within_of_tree {ts : List Token} {e : Expr} (h : tree ts = .ok e) : Within depthLimit [] (body ts) := by
  obtain ⟨rest, hclose, hexpr⟩ := expression_of_tree h
  obtain ⟨w, first, js, hw, hflat, rfl⟩ := expression_sound (operand_within depthLimit []) hexpr
  rw [hclose] at hw
  rw [List.append_cancel_right hw]
  exact ((flat_within_iff rfl).mp hflat).2

theorem tree_of_within {ts : List Token} {e : Expr} (h : Derives .expr (body ts) e)
    (hin : Within depthLimit [] (body ts)) (hheight : e.height ≤ depthLimit) : tree ts = .ok e := by
  obtain ⟨stop, more, hclose, hstop⟩ := close_eq_body_append ts
  obtain ⟨first, js, hflat, rfl⟩ := h.unfolds
  have hreads : Flat (fun v e => e.height ≤ depthLimit → ∀ rest, operand depthLimit (v ++ rest) = .ok (e, rest))
      (body ts) first js :=
    ((flat_within_iff rfl).mpr ⟨hflat, hin⟩).imp fun v e h => operand_of_within h.1 h.2
  have hrest := head_not_isOperator (.inr hstop) more
  rw [tree, whole, hclose, expression_of_flat hreads hheight 0 hrest, Except.ok_bind]
  simp only [hstop, if_true]

/-- **The limit on depth is exact.** A tree that is returned is not deeper than the limit. Of
the lists of tokens that hold an expression, the parser reports as too deep those whose tree
is deeper than the limit, and those that have more groups and signs than the limit open at
some token. For all others it returns the tree. -/
theorem depth_limit_exact (ts : List Token) :
    (∀ e, tree ts = .ok e → e.depth ≤ depthLimit) ∧
    ∀ e, Derives .expr (body ts) e →
      ((∃ t, tree ts = .error ⟨.tooDeep, t⟩) ↔
        depthLimit < e.depth ∨ ∃ opened ∈ openAt (body ts), depthLimit < opened.length) ∧
      (¬ (depthLimit < e.depth ∨ ∃ opened ∈ openAt (body ts), depthLimit < opened.length) → tree ts = .ok e) := by
  have hkeeps : ∀ e : Expr, ¬ (depthLimit < e.depth ∨ ∃ opened ∈ openAt (body ts), depthLimit < opened.length) ↔
      e.height ≤ depthLimit ∧ Within depthLimit [] (body ts) := by
    intro e
    simp [Within, openAt, Expr.depth_eq_height]
  refine ⟨fun e h => Expr.depth_eq_height e ▸ height_of_tree h, fun e he => ?_⟩
  have hok : ¬ (depthLimit < e.depth ∨ ∃ opened ∈ openAt (body ts), depthLimit < opened.length) → tree ts = .ok e :=
    fun h => tree_of_within he ((hkeeps e).mp h).2 ((hkeeps e).mp h).1
  refine ⟨⟨?_, ?_⟩, hok⟩
  · rintro ⟨t, ht⟩
    by_contra h
    rw [hok h] at ht
    cases ht
  · intro h
    obtain htree | htree := tree_complete he
    · exact absurd h ((hkeeps e).mpr ⟨height_of_tree htree, within_of_tree htree⟩)
    · exact htree

/-- A number behind `n` plus signs. -/
def plusSigned (n : Nat) : List Token :=
  List.replicate n (.ofLexeme (.operator (.operator .add)) 0) ++ [.ofLexeme (.number (.int 1)) n]

/-- Behind 201 plus signs a number is too deep, though its tree is a leaf. -/
theorem depth_limit_exact_plus_signs :
    Derives .expr (body (plusSigned 201)) (.number 201 (.int 1)) ∧ (Expr.number 201 (.int 1)).depth = 1 ∧
      ∃ t, tree (plusSigned 201) = .error ⟨.tooDeep, t⟩ := by
  have hsigns : ∀ n, Derives .primary (List.replicate n (.ofLexeme (.operator (.operator .add)) 0) ++
      [.ofLexeme (.number (.int 1)) 201]) (.number 201 (.int 1)) := by
    intro n
    induction n with
    | zero => exact .number (t := .ofLexeme (.number (.int 1)) 201) rfl
    | succ n ih => exact .plus ⟨_, rfl, rfl⟩ ih
  have hbody : body (plusSigned 201) = plusSigned 201 := by decide +kernel
  have hderives : Derives .expr (body (plusSigned 201)) (.number 201 (.int 1)) := by
    rw [hbody]
    exact .ofTerm (.ofPrimary (hsigns 201))
  have hopen : ∃ opened ∈ openAt (body (plusSigned 201)), depthLimit < opened.length := by
    rw [hbody]
    decide +kernel
  exact ⟨hderives, rfl, ((depth_limit_exact _).2 _ hderives).1.mpr (.inr hopen)⟩

end Abacus.Parse
