import Abacus.Expr.Parse

/-!
# The grammar of expressions

    expr    ::= term ((add | subtract) term)*
    term    ::= primary (multiply | divide | modulo | floorDivide, each followed by primary)*
    primary ::= number | identifier | '(' expr ')' | '+' primary | '-' primary

Both repetitions group to the left. A node of the tree takes its position and its
value from one token: the number, the name, the minus sign or the binary operator.
Groups and plus signs leave no node.

The grammar says which tokens make which tree, with no limit on depth and no word on
how the tree is found. The parser, on the other hand, knows no terms: it collects a
flat row of operators and operands, and then sweeps over the row once for each rank.
Here the two views of a row are brought together, still apart from the reading of
tokens. `fold` is a sweep without the limit on depth, and every string of the grammar
is a first operand and a row (`Flat`) that two folds turn into its tree.
-/

namespace Abacus.Parse

/-! ### Derivations -/

/-- What a string of tokens can be. -/
inductive Nonterminal where
  /-- Terms, added and subtracted. -/
  | expr
  /-- Primaries, multiplied and divided. -/
  | term
  /-- An operand. -/
  | primary

/-- The token stands for the operator `op` where only the meaning counts. A value that
is an operator stands for itself alone. -/
def Signs (t : Token) (op : Operator) : Prop := ∃ d, t.lexeme = .operator d ∧ d.denoted? = some op

/-- The token carries the operator `op` itself. -/
def Carries (t : Token) (op : Operator) : Prop := t.lexeme = .operator (.operator op)

/-- `Derives n w e`: the tokens `w` are an `n` of the grammar, and `e` is its tree. -/
inductive Derives : Nonterminal → List Token → Expr → Prop where
  /-- `expr ::= term`. -/
  | ofTerm {w : List Token} {e : Expr} : Derives .term w e → Derives .expr w e
  /-- `expr ::= expr (add | subtract) term`. -/
  | sum {v w : List Token} {t : Token} {op : Operator} {l r : Expr} : Derives .expr v l →
      Carries t op → op = .add ∨ op = .subtract → Derives .term w r →
      Derives .expr (v ++ t :: w) (.binary t.position (.operator op) l r)
  /-- `term ::= primary`. -/
  | ofPrimary {w : List Token} {e : Expr} : Derives .primary w e → Derives .term w e
  /-- `term ::= term (multiply | divide | modulo | floorDivide) primary`. -/
  | product {v w : List Token} {t : Token} {op : Operator} {l r : Expr} : Derives .term v l →
      Carries t op → op.rank = 0 → Derives .primary w r →
      Derives .term (v ++ t :: w) (.binary t.position (.operator op) l r)
  /-- `primary ::= number`. -/
  | number {t : Token} {value : Number} : t.lexeme = .number value →
      Derives .primary [t] (.number t.position value)
  /-- `primary ::= identifier`. -/
  | identifier {t : Token} {name : String} : t.lexeme = .identifier name →
      Derives .primary [t] (.identifier t.position name)
  /-- `primary ::= '(' expr ')'`. -/
  | group {o c : Token} {w : List Token} {e : Expr} : o.lexeme = .openParen → Derives .expr w e →
      c.lexeme = .closeParen → Derives .primary (o :: (w ++ [c])) e
  /-- `primary ::= '+' primary`. -/
  | plus {t : Token} {w : List Token} {e : Expr} : Signs t .add → Derives .primary w e →
      Derives .primary (t :: w) e
  /-- `primary ::= '-' primary`. -/
  | minus {t : Token} {w : List Token} {e : Expr} : Signs t .subtract → Derives .primary w e →
      Derives .primary (t :: w) (.unary t.position .negate e)

theorem Carries.isOperator {t : Token} {op : Operator} (h : Carries t op) : t.lexeme.isOperator = true := by
  rw [h]; rfl

theorem rank_eq_one_iff (op : Operator) : op.rank = 1 ↔ op = .add ∨ op = .subtract := by
  cases op <;> decide

theorem rank_lt_two (op : Operator) : op.rank < 2 := by
  cases op <;> decide

/-- No token of a string of the grammar ends the input. -/
theorem Derives.not_isEnd {n : Nonterminal} {w : List Token} {e : Expr} (h : Derives n w e) :
    ∀ t ∈ w, t.isEnd = false := by
  induction h with
  | ofTerm _ ih | ofPrimary _ ih => exact ih
  | sum _ hc _ _ ihl ihr | product _ hc _ _ ihl ihr =>
    intro u hu
    rw [List.mem_append, List.mem_cons] at hu
    rcases hu with hu | rfl | hu
    · exact ihl u hu
    · simp [Token.isEnd, show u.lexeme = _ from hc]
    · exact ihr u hu
  | number ht | identifier ht =>
    intro u hu
    rw [List.mem_singleton] at hu
    subst hu
    simp [Token.isEnd, ht]
  | group ho _ hc ih =>
    intro u hu
    simp only [List.mem_cons, List.mem_append, List.not_mem_nil, or_false] at hu
    rcases hu with rfl | hu | rfl
    · simp [Token.isEnd, ho]
    · exact ih u hu
    · simp [Token.isEnd, hc]
  | plus hs _ ih | minus hs _ ih =>
    intro u hu
    obtain ⟨d, hd, -⟩ := hs
    rcases List.mem_cons.mp hu with rfl | hu
    · simp [Token.isEnd, hd]
    · exact ih u hu

/-! ### Tiers

The two rules with operators differ in the rank of the operators only. -/

/-- The strings whose operators outside groups have ranks below a number. -/
def tier : Nat → Nonterminal
  | 0 => .primary
  | 1 => .term
  | _ => .expr

theorem Derives.raise {rank : Nat} {w : List Token} {e : Expr} (h : Derives (tier rank) w e) :
    Derives (tier (rank + 1)) w e := by
  match rank with
  | 0 => exact .ofPrimary h
  | 1 => exact .ofTerm h
  | _ + 2 => exact h

/-- A string with operators up to a rank, an operator of the rank and a string with
tighter operators. -/
theorem Derives.join {rank : Nat} {v w : List Token} {t : Token} {op : Operator} {l r : Expr}
    (hl : Derives (tier (rank + 1)) v l) (ht : Carries t op) (hop : op.rank = rank)
    (hr : Derives (tier rank) w r) :
    Derives (tier (rank + 1)) (v ++ t :: w) (.binary t.position (.operator op) l r) := by
  match rank with
  | 0 => exact .product hl ht hop hr
  | 1 => exact .sum hl ht ((rank_eq_one_iff op).mp hop) hr
  | n + 2 => have := rank_lt_two op; omega

/-! ### Rows of operators -/

/-- The operator with its operand as they were read. -/
def Join.pair (j : Join) : Token × Expr := (j.token, j.right)

/-- The node of an operator and its operands. -/
def Join.node (j : Join) (left : Expr) : Expr := .binary j.token.position (.operator j.operator) left j.right

/-- `Row P w js`: the tokens `w` are the operators of `js` in their order, each followed
by tokens that are its right operand in the sense of `P`. -/
inductive Row (P : List Token → Expr → Prop) : List Token → List Join → Prop where
  /-- No operator. -/
  | nil : Row P [] []
  /-- An operator, its operand and the rest of the row. -/
  | cons {v w : List Token} {j : Join} {js : List Join} : Carries j.token j.operator →
      P v j.right → Row P w js → Row P (j.token :: (v ++ w)) (j :: js)

theorem Row.append {P : List Token → Expr → Prop} {v w : List Token} {js ks : List Join}
    (hv : Row P v js) (hw : Row P w ks) : Row P (v ++ w) (js ++ ks) := by
  induction hv with
  | nil => exact hw
  | cons hc hr _ ih =>
    rw [List.cons_append, List.append_assoc]
    exact .cons hc hr ih

/-! ### Folding a row -/

/-- Join every operator of one rank with its neighbours, whatever the depth. -/
def fold (rank : Nat) (left : Expr) : List Join → Expr × List Join
  | [] => (left, [])
  | j :: js =>
    if j.operator.rank = rank then fold rank (j.node left) js
    else
      let (right, rest) := fold rank j.right js
      (left, { j with right } :: rest)

/-- The tree of an operand and a row, whatever the depth. -/
def treeOf (first : Expr) (js : List Join) : Expr :=
  let (first, js) := fold 0 first js
  (fold 1 first js).1

/-- An operator of the rank behind a row that was folded up takes the whole row as its
left operand. -/
theorem fold_snoc {rank : Nat} {left l : Expr} {js : List Join} {j : Join}
    (h : fold rank left js = (l, [])) (hj : j.operator.rank = rank) :
    fold rank left (js ++ [j]) = (j.node l, []) := by
  induction js generalizing left with
  | nil =>
    simp only [fold, Prod.mk.injEq, and_true] at h
    subst h
    simp [fold, hj]
  | cons k js ih =>
    simp only [fold, List.cons_append] at h ⊢
    split at h
    · rename_i hk
      rw [if_pos hk]
      exact ih h
    · simp at h

/-- An operator of another rank separates what is folded before it from what is folded
behind it. -/
theorem fold_append_cons {rank : Nat} {left l r : Expr} {js js' ks ks' : List Join} {j : Join}
    (h : fold rank left js = (l, js')) (hj : j.operator.rank ≠ rank) (hk : fold rank j.right ks = (r, ks')) :
    fold rank left (js ++ j :: ks) = (l, js' ++ { j with right := r } :: ks') := by
  induction js generalizing left l js' with
  | nil =>
    simp only [fold, Prod.mk.injEq] at h
    obtain ⟨rfl, rfl⟩ := h
    simp [fold, hj, hk]
  | cons i js ih =>
    simp only [fold, List.cons_append] at h ⊢
    split at h
    · rename_i hi
      rw [if_pos hi]
      exact ih h
    · rename_i hi
      simp only [Prod.mk.injEq] at h
      obtain ⟨rfl, rfl⟩ := h
      rw [if_neg hi, ih rfl]
      rfl

/-- What is left of a row has operators of the row, and none of the rank. -/
theorem mem_fold {rank : Nat} {left : Expr} {js : List Join} {k : Join} (h : k ∈ (fold rank left js).2) :
    k.operator.rank ≠ rank ∧ ∃ j ∈ js, j.operator = k.operator := by
  induction js generalizing left with
  | nil => simp [fold] at h
  | cons j js ih =>
    simp only [fold] at h
    split at h
    · obtain ⟨hr, i, hi, he⟩ := ih h
      exact ⟨hr, i, List.mem_cons_of_mem _ hi, he⟩
    · rename_i hj
      rcases List.mem_cons.mp h with rfl | h
      · exact ⟨hj, j, List.mem_cons_self .., rfl⟩
      · obtain ⟨hr, i, hi, he⟩ := ih h
        exact ⟨hr, i, List.mem_cons_of_mem _ hi, he⟩

/-- After the folds of both ranks no operator is left. -/
theorem fold_fold_snd (first : Expr) (js : List Join) :
    (fold 1 (fold 0 first js).1 (fold 0 first js).2).2 = [] := by
  rw [List.eq_nil_iff_forall_not_mem]
  intro k hk
  obtain ⟨h1, j, hj, he⟩ := mem_fold hk
  have h0 := (mem_fold hj).1
  have := rank_lt_two k.operator
  rw [he] at h0
  omega

theorem fold_fold (first : Expr) (js : List Join) :
    fold 1 (fold 0 first js).1 (fold 0 first js).2 = (treeOf first js, []) :=
  Prod.ext rfl (fold_fold_snd first js)

/-- A sum or a difference behind a row takes the tree of the whole row as its left operand,
and a row that is folded up at once as its right operand. -/
theorem treeOf_join {first right r : Expr} {js ks : List Join} {t : Token} {op : Operator}
    (hop : op = .add ∨ op = .subtract) (hk : fold 0 right ks = (r, [])) :
    treeOf first (js ++ ⟨t, op, right⟩ :: ks) = .binary t.position (.operator op) (treeOf first js) r := by
  have hrank : op.rank = 1 := (rank_eq_one_iff op).mpr hop
  have h₀ : fold 0 first (js ++ ⟨t, op, right⟩ :: ks) =
      ((fold 0 first js).1, (fold 0 first js).2 ++ [⟨t, op, r⟩]) :=
    fold_append_cons (j := ⟨t, op, right⟩) rfl (by simp [hrank]) hk
  have h₁ := fold_snoc (j := ⟨t, op, r⟩) (fold_fold first js) hrank
  simp only [treeOf, h₀, h₁]
  rfl

/-- A fold goes from the strings of one tier to those of the next. -/
theorem derives_fold (rank : Nat) {left : Expr} {js : List Join} {v w : List Token}
    (hl : Derives (tier (rank + 1)) v left) (hw : Row (Derives (tier rank)) w js) :
    ∃ v' w', v ++ w = v' ++ w' ∧ Derives (tier (rank + 1)) v' (fold rank left js).1 ∧
      Row (Derives (tier (rank + 1))) w' (fold rank left js).2 := by
  induction hw generalizing v left with
  | nil => exact ⟨v, [], rfl, hl, .nil⟩
  | @cons u w j js hc hr _ ih =>
    simp only [fold]
    split
    · rename_i hj
      obtain ⟨v', w', hvw, hv', hw'⟩ := ih (hl.join hc hj hr)
      exact ⟨v', w', by simpa using hvw, hv', hw'⟩
    · obtain ⟨u', w', huw, hu', hw'⟩ := ih hr.raise
      refine ⟨v, j.token :: (u' ++ w'), by rw [huw], hl, ?_⟩
      exact Row.cons (j := { j with right := (fold rank j.right js).1 }) hc hu' hw'

/-! ### Flat strings -/

/-- `Flat P w first js`: the tokens `w` are an operand and a row, in the sense of `P`. -/
def Flat (P : List Token → Expr → Prop) (w : List Token) (first : Expr) (js : List Join) : Prop :=
  ∃ u v, w = u ++ v ∧ P u first ∧ Row P v js

theorem Flat.single {P : List Token → Expr → Prop} {w : List Token} {e : Expr} (h : P w e) :
    Flat P w e [] := ⟨w, [], by simp, h, .nil⟩

/-- Two flat strings with an operator between them. -/
theorem Flat.join {P : List Token → Expr → Prop} {v w : List Token} {first right : Expr}
    {js ks : List Join} {t : Token} {op : Operator} (hv : Flat P v first js) (ht : Carries t op)
    (hw : Flat P w right ks) : Flat P (v ++ t :: w) first (js ++ ⟨t, op, right⟩ :: ks) := by
  obtain ⟨v₁, v₂, rfl, hf, hv⟩ := hv
  obtain ⟨w₁, w₂, rfl, hr, hw⟩ := hw
  refine ⟨v₁, v₂ ++ t :: (w₁ ++ w₂), by simp, hf, hv.append ?_⟩
  exact Row.cons (j := ⟨t, op, right⟩) ht hr hw

/-- A flat string of primaries is an expression, and the folds find its tree. -/
theorem Flat.derives {w : List Token} {first : Expr} {js : List Join}
    (h : Flat (Derives .primary) w first js) : Derives .expr w (treeOf first js) := by
  obtain ⟨u, v, rfl, hf, hv⟩ := h
  obtain ⟨u₁, v₁, huv, hu₁, hv₁⟩ := derives_fold 0 (.ofPrimary hf) hv
  obtain ⟨u₂, v₂, huv', hu₂, hv₂⟩ := derives_fold 1 (.ofTerm hu₁) hv₁
  rw [fold_fold_snd] at hv₂
  cases hv₂
  rw [huv, huv', List.append_nil]
  exact hu₂

/-! ### From strings to rows -/

section Unfolds

variable {P : List Token → Expr → Prop} {v w : List Token} {t : Token} {op : Operator} {l r e : Expr}

/-- What a string of the grammar is in terms of operands, in the sense of `P`: one of them, or
an operand and a row that one fold or both folds turn into the tree. -/
def Unfolds (P : List Token → Expr → Prop) : Nonterminal → List Token → Expr → Prop
  | .primary, w, e => P w e
  | .term, w, e => ∃ first js, Flat P w first js ∧ fold 0 first js = (e, [])
  | .expr, w, e => ∃ first js, Flat P w first js ∧ treeOf first js = e

theorem Unfolds.ofTerm (h : Unfolds P .term w e) : Unfolds P .expr w e := by
  obtain ⟨first, js, hflat, hfold⟩ := h
  exact ⟨first, js, hflat, by simp [treeOf, hfold, fold]⟩

theorem Unfolds.sum (hl : Unfolds P .expr v l) (hc : Carries t op) (hop : op = .add ∨ op = .subtract)
    (hr : Unfolds P .term w r) : Unfolds P .expr (v ++ t :: w) (.binary t.position (.operator op) l r) := by
  obtain ⟨first, js, hl, rfl⟩ := hl
  obtain ⟨right, ks, hr, hk⟩ := hr
  exact ⟨first, _, hl.join hc hr, treeOf_join hop hk⟩

theorem Unfolds.ofPrimary (h : P w e) : Unfolds P .term w e := ⟨e, [], .single h, rfl⟩

theorem Unfolds.product (hl : Unfolds P .term v l) (hc : Carries t op) (hop : op.rank = 0) (hr : P w r) :
    Unfolds P .term (v ++ t :: w) (.binary t.position (.operator op) l r) := by
  obtain ⟨first, js, hl, hfold⟩ := hl
  exact ⟨first, _, hl.join hc (.single hr), fold_snoc hfold hop⟩

/-- Every string of the grammar unfolds into primaries. -/
theorem Derives.unfolds {n : Nonterminal} (h : Derives n w e) : Unfolds (Derives .primary) n w e := by
  induction h with
  | ofTerm _ ih => exact ih.ofTerm
  | sum _ hc hop _ ihl ihr => exact ihl.sum hc hop ihr
  | ofPrimary _ ih => exact .ofPrimary ih
  | product _ hc hop _ ihl ihr => exact ihl.product hc hop ihr
  | number ht => exact .number ht
  | identifier ht => exact .identifier ht
  | group ho hw hc => exact .group ho hw hc
  | plus ht hw => exact .plus ht hw
  | minus ht hw => exact .minus ht hw

end Unfolds

end Abacus.Parse
