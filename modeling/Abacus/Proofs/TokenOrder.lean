import Abacus.Proofs.Composition
import Abacus.Proofs.Decoding
import Mathlib.Data.List.Forall2

/-!
# The tokens of a tree

The parser takes a row of operands and operators apart, rank by rank, and puts its pieces into
a tree. Whatever the ranks, a walk through the tree from left to right meets the tokens again,
each one once and in their order. Only parentheses and plus signs are missing, which leave no
node.

Which operators are signs is said of the tokens alone, by the place where they stand: an
operand is due at the front of the list and right behind an opening parenthesis or an operator,
and an operator that stands there is a sign.
-/

namespace Abacus

/-! ### Walking through a tree -/

namespace Expr

/-- The nodes of a tree from left to right: a binary operator stands between its operands, and
a unary one before its operand. -/
def inorder : Expr → List Expr
  | unary p op e => unary p op e :: e.inorder
  | binary p value l r => l.inorder ++ binary p value l r :: r.inorder
  | e => [e]

theorem length_inorder (e : Expr) : e.inorder.length = e.size := by
  induction e with
  | number | identifier | foreign => rfl
  | unary p op e ih => simp [inorder, size, ih, Nat.add_comm]
  | binary p value l r ihl ihr =>
    simp only [inorder, List.length_append, List.length_cons, ihl, ihr, size]
    omega

/-- Every node has one instruction. -/
theorem Codable.length_emit {e : Expr} (h : e.Codable) : e.emit.code.length = e.size := by
  induction e with
  | number | identifier => rfl
  | unary p op e ih =>
    cases op with
    | negate =>
      rw [emit_negate (show e.Codable from h), List.length_append, ih h, size, Nat.add_comm]
      rfl
    | other value => exact h.elim
  | binary p value l r ihl ihr =>
    rw [emit_binary h.1 h.2]
    simp only [List.length_append, List.length_cons, List.length_nil, ihl h.1, ihr h.2, size]
    omega
  | foreign object => exact h.elim

/-- Both nodes give their positions, and the first one stands before the other. -/
def Precedes (m n : Expr) : Prop :=
  ∃ p q : Int, m.position = .number (.int p) ∧ n.position = .number (.int q) ∧ p < q

end Expr

namespace Parse

/-! ### The tokens that leave a node -/

/-- A token, and whether an operand is due where it stands. -/
structure Occurrence where
  /-- The token. -/
  token : Token
  /-- Is an operand due? -/
  operandDue : Bool

/-- Is an operand due behind the lexeme? -/
def callsForOperand : Lexeme → Bool
  | .openParen | .operator _ => true
  | _ => false

/-- The tokens, each with the place where it stands. -/
def occurrences (operandDue : Bool) : List Token → List Occurrence
  | [] => []
  | t :: ts => ⟨t, operandDue⟩ :: occurrences (callsForOperand t.lexeme) ts

/-- Does the token leave a node? All do but parentheses and plus signs. -/
def Occurrence.leavesNode (o : Occurrence) : Bool :=
  match o.token.lexeme with
  | .openParen | .closeParen => false
  | .operator value => !(o.operandDue && decide (value.denoted? = some .add))
  | _ => true

/-- The tokens that leave a node. -/
def kept (ts : List Token) : List Occurrence := (occurrences true ts).filter Occurrence.leavesNode

/-- `Shows e o`: the node `e` has the kind, the position and the value of a token that occurs
where `o` says. A negation stands for a minus sign. -/
inductive Shows : Expr → Occurrence → Prop where
  /-- A number. -/
  | number {t : Token} {value : Number} : t.lexeme = .number value → Shows (.number t.position value) ⟨t, true⟩
  /-- A name. -/
  | identifier {t : Token} {name : String} : t.lexeme = .identifier name →
      Shows (.identifier t.position name) ⟨t, true⟩
  /-- A minus sign. -/
  | negation {t : Token} {e : Expr} : Signs t .subtract → Shows (.unary t.position .negate e) ⟨t, true⟩
  /-- A binary operator. -/
  | operator {t : Token} {value : Datum} {l r : Expr} : t.lexeme = .operator value →
      Shows (.binary t.position value l r) ⟨t, false⟩

theorem Shows.position {e : Expr} {o : Occurrence} (h : Shows e o) : e.position = .number (.int o.token.position) := by
  cases h <;> rfl

/-! ### From tokens to nodes -/

/-- Is an operand due behind the tokens? -/
def dueBehind (operandDue : Bool) (ts : List Token) : Bool :=
  ts.foldl (fun _ t => callsForOperand t.lexeme) operandDue

theorem occurrences_append (operandDue : Bool) (v w : List Token) :
    occurrences operandDue (v ++ w) = occurrences operandDue v ++ occurrences (dueBehind operandDue v) w := by
  induction v generalizing operandDue with
  | nil => rfl
  | cons t v ih => simp [occurrences, ih, dueBehind]

/-- Behind an operand, a term or an expression no operand is due. -/
theorem Derives.dueBehind {n : Nonterminal} {w : List Token} {e : Expr} (h : Derives n w e) (operandDue : Bool) :
    dueBehind operandDue w = false := by
  induction h generalizing operandDue with
  | ofTerm _ ih | ofPrimary _ ih => exact ih operandDue
  | sum _ _ _ _ _ ihr | product _ _ _ _ _ ihr =>
    simp only [Parse.dueBehind, List.foldl_append, List.foldl_cons]
    exact ihr _
  | number ht | identifier ht => simp [Parse.dueBehind, ht, callsForOperand]
  | group _ _ hc => simp [Parse.dueBehind, hc, callsForOperand]
  | plus _ _ ih | minus _ _ ih =>
    simp only [Parse.dueBehind, List.foldl_cons]
    exact ih _

section Kept

variable {n : Nonterminal} {v w : List Token} {t c : Token} {e : Expr}

theorem kept_operator {op : Operator} (hv : Derives n v e) (ht : Carries t op) :
    kept (v ++ t :: w) = kept v ++ ⟨t, false⟩ :: kept w := by
  rw [Carries] at ht
  simp [kept, occurrences_append, hv.dueBehind, occurrences, ht, callsForOperand, Occurrence.leavesNode]

theorem kept_group (ht : t.lexeme = .openParen) (hw : Derives n w e) (hc : c.lexeme = .closeParen) :
    kept (t :: (w ++ [c])) = kept w := by
  simp [kept, occurrences, ht, callsForOperand, occurrences_append, hw.dueBehind, hc, Occurrence.leavesNode]

theorem kept_plus (ht : Signs t .add) : kept (t :: w) = kept w := by
  obtain ⟨d, hd, hop⟩ := ht
  simp [kept, occurrences, hd, callsForOperand, Occurrence.leavesNode, hop]

theorem kept_minus (ht : Signs t .subtract) : kept (t :: w) = ⟨t, true⟩ :: kept w := by
  obtain ⟨d, hd, hop⟩ := ht
  simp [kept, occurrences, hd, callsForOperand, Occurrence.leavesNode, hop]

end Kept

/-- The nodes of a tree show the tokens that leave a node, in their order. -/
theorem Derives.shows {n : Nonterminal} {w : List Token} {e : Expr} (h : Derives n w e) :
    List.Forall₂ Shows e.inorder (kept w) := by
  induction h with
  | ofTerm _ ih | ofPrimary _ ih => exact ih
  | sum hv hc _ _ ihl ihr | product hv hc _ _ ihl ihr =>
    rw [kept_operator hv hc]
    exact List.rel_append ihl (.cons (.operator hc) ihr)
  | @number t value ht =>
    have hkept : kept [t] = [⟨t, true⟩] := by simp [kept, occurrences, Occurrence.leavesNode, ht]
    rw [hkept]
    exact .cons (.number ht) .nil
  | @identifier t name ht =>
    have hkept : kept [t] = [⟨t, true⟩] := by simp [kept, occurrences, Occurrence.leavesNode, ht]
    rw [hkept]
    exact .cons (.identifier ht) .nil
  | group ho hw hc ih =>
    rw [kept_group ho hw hc]
    exact ih
  | plus ht _ ih =>
    rw [kept_plus ht]
    exact ih
  | minus ht _ ih =>
    rw [kept_minus ht]
    exact .cons (.negation ht) ih

/-! ### Positions -/

theorem map_token_occurrences (operandDue : Bool) (ts : List Token) :
    (occurrences operandDue ts).map Occurrence.token = ts := by
  induction ts generalizing operandDue with
  | nil => rfl
  | cons t ts ih => simp [occurrences, ih]

/-- The tokens that leave a node are some of the tokens, in their order. -/
theorem map_token_kept_sublist (ts : List Token) : ((kept ts).map Occurrence.token).Sublist ts := by
  have h : (kept ts).Sublist (occurrences true ts) := List.filter_sublist
  have h' := h.map Occurrence.token
  rwa [map_token_occurrences] at h'

/-- The nodes of a tree stand in the order of their positions, if the tokens do. -/
theorem Derives.pairwise_precedes {n : Nonterminal} {w : List Token} {e : Expr} (h : Derives n w e)
    (hw : w.Pairwise fun t u => t.position < u.position) : e.inorder.Pairwise Expr.Precedes := by
  have hpositions : e.inorder.map Expr.position =
      ((kept w).map Occurrence.token).map fun t => .number (.int t.position) := by
    rw [← List.forall₂_eq_eq_eq, List.forall₂_map_left_iff, List.map_map, List.forall₂_map_right_iff]
    exact h.shows.imp fun _ _ hshows => hshows.position
  have hkept : ((kept w).map Occurrence.token).Pairwise fun t u => t.position < u.position :=
    hw.sublist (map_token_kept_sublist w)
  have hpairs : (e.inorder.map Expr.position).Pairwise fun d d' =>
      ∃ p q : Int, d = .number (.int p) ∧ d' = .number (.int q) ∧ p < q := by
    rw [hpositions, List.pairwise_map]
    exact hkept.imp fun htu => ⟨_, _, rfl, rfl, htu⟩
  rw [List.pairwise_map] at hpairs
  exact hpairs

end Parse

/-! ### Source texts -/

namespace Scan

theorem Scans.forall_le_position {n : Nat} {cs : List Char} {ts : List Token} (h : Scans n cs ts) :
    ∀ t ∈ ts, (n : Int) ≤ t.position := by
  induction h with
  | stop => simp [Token.ofLexeme]
  | blank _ _ ih =>
    intro t ht
    have := ih t ht
    omega
  | @lexeme n c w rest l ts _ _ _ ih =>
    refine List.forall_mem_cons.mpr ⟨Int.le_refl _, fun t ht => ?_⟩
    have := ih t ht
    omega

/-- The tokens of a text stand in the order of their positions, no two at the same one. -/
theorem Scans.pairwise_position {n : Nat} {cs : List Char} {ts : List Token} (h : Scans n cs ts) :
    ts.Pairwise fun t u => t.position < u.position := by
  induction h with
  | stop => exact List.pairwise_singleton ..
  | blank _ _ ih => exact ih
  | @lexeme n c w rest l ts _ _ hscans ih =>
    refine List.pairwise_cons.mpr ⟨fun t ht => ?_, ih⟩
    have := hscans.forall_le_position t ht
    simp only [Token.ofLexeme, List.length_cons] at this ⊢
    omega

end Scan

open Parse in
/-- **No token is lost, doubled or moved.** The walk through a tree from left to right shows the
tokens before the first end of input, without the parentheses and the plus signs, one for one
and in their order. So there are as many nodes, and as many instructions, as there are such
tokens. And in the tree of a source text the positions of the nodes increase along the walk. -/
theorem tree_shows_tokens {ts : List Token} {e : Expr} (h : Parse.tree ts = .ok e) :
    List.Forall₂ Shows e.inorder (kept (body ts)) ∧
    e.size = (kept (body ts)).length ∧
    (∃ program, e.code = .ok program ∧ program.length = (kept (body ts)).length) ∧
    ∀ source, Scan.tokens source = .ok ts → e.inorder.Pairwise Expr.Precedes := by
  have hderives := tree_sound h
  have hsize : e.size = (kept (body ts)).length := by
    rw [← e.length_inorder]
    exact hderives.shows.length_eq
  have hcodable : e.Codable := (hderives.nodes (P := fun _ => True) fun _ _ => trivial).codable
  refine ⟨hderives.shows, hsize, ⟨_, hcodable.code_eq, hcodable.length_emit.trans hsize⟩, fun source hts => ?_⟩
  have hscans := Scan.tokens_eq_ok_iff.mp hts
  refine hderives.pairwise_precedes ?_
  rw [body_of_scans hscans]
  exact hscans.pairwise_position.sublist (List.dropLast_sublist ts)

open Parse in
/-- The tree of `-(2*+3)-x` has six nodes: the parentheses and the plus sign leave none. The product
binds tighter than the difference, and still the walk is that of the text. -/
theorem tree_shows_tokens_signs :
    ∃ ts e, Scan.tokens "-(2*+3)-x" = .ok ts ∧ Parse.tree ts = .ok e ∧ e.size = 6 ∧
      List.Forall₂ Shows e.inorder (kept (body ts)) ∧ e.inorder.Pairwise Expr.Precedes := by
  have hts : Scan.tokens "-(2*+3)-x" = .ok [.ofLexeme (.operator (.operator .subtract)) 0, .ofLexeme .openParen 1,
      .ofLexeme (.number (.int 2)) 2, .ofLexeme (.operator (.operator .multiply)) 3,
      .ofLexeme (.operator (.operator .add)) 4, .ofLexeme (.number (.int 3)) 5, .ofLexeme .closeParen 6,
      .ofLexeme (.operator (.operator .subtract)) 7, .ofLexeme (.identifier "x") 8, .ofLexeme .endOfInput 9] := by
    decide +kernel
  have he : Parse.tree [.ofLexeme (.operator (.operator .subtract)) 0, .ofLexeme .openParen 1,
      .ofLexeme (.number (.int 2)) 2, .ofLexeme (.operator (.operator .multiply)) 3,
      .ofLexeme (.operator (.operator .add)) 4, .ofLexeme (.number (.int 3)) 5, .ofLexeme .closeParen 6,
      .ofLexeme (.operator (.operator .subtract)) 7, .ofLexeme (.identifier "x") 8, .ofLexeme .endOfInput 9] =
        .ok (.binary 7 (.operator .subtract)
          (.unary 0 .negate (.binary 3 (.operator .multiply) (.number 2 (.int 2)) (.number 5 (.int 3))))
          (.identifier 8 "x")) := by decide +kernel
  obtain ⟨hshows, -, -, hprecedes⟩ := tree_shows_tokens he
  exact ⟨_, _, hts, he, rfl, hshows, hprecedes _ hts⟩

end Abacus
