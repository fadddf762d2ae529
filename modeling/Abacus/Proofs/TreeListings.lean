import Abacus.Proofs.Decoding
import Abacus.Proofs.Height
import Abacus.Proofs.Integers
import Abacus.Proofs.Listings

/-!
# Reading a tree off its listing

The listing of a tree has a line for each node, from the root down, and the tree can be read off it. The
line of a node tells what the node is, and with that how many operands it has. So the lines of one operand
end where those of the next begin, and no listing is the beginning of another one. The indentation adds
nothing to this; it shows how deep the tree is.

For this, no part of a line may look like another one. A name is made of letters, digits and underscores,
so it holds neither an end of line nor the mark in front of a position.
-/

theorem List.max?_append_eq_some {xs ys : List Nat} {m n : Nat} (hx : xs.max? = some m) (hy : ys.max? = some n) :
    (xs ++ ys).max? = some (max m n) := by
  rw [List.max?_eq_some_iff] at hx hy ⊢
  obtain ⟨hm, hxs⟩ := hx
  obtain ⟨hn, hys⟩ := hy
  constructor
  · rcases Nat.le_total m n with h | h <;> simp [h, hm, hn]
  · intro k hk
    rcases List.mem_append.mp hk with hk | hk
    · exact Nat.le_trans (hxs k hk) (Nat.le_max_left ..)
    · exact Nat.le_trans (hys k hk) (Nat.le_max_right ..)

namespace Abacus

open Text

/-! ### What can be listed -/

/-- The text is a name: letters, digits and underscores, and no digit in front. -/
def IsName (name : String) : Prop :=
  ∃ c w, name = String.ofList (c :: w) ∧ Lexeme.startsName c = true ∧ ∀ d ∈ w, Lexeme.continuesName d = true

/-- The lexeme can be listed and found again: an integer within the limit on digits, a name or an operator. -/
def Lexeme.Listable : Lexeme → Prop
  | .number value => ∃ n : Int, value = .int n ∧ n.natAbs < 10 ^ Number.digitLimit
  | .identifier name => IsName name
  | .operator value => ∃ op, value = .operator op
  | .endOfInput | .openParen | .closeParen | .other _ => False

theorem IsName.continuesName {name : String} (h : IsName name) : ∀ c ∈ name.toList, Lexeme.continuesName c = true := by
  obtain ⟨c, w, rfl, hc, hw⟩ := h
  rw [String.toList_ofList]
  exact List.forall_mem_cons.mpr ⟨(Scan.continuesName_iff c).mpr (.inl hc), hw⟩

theorem IsName.visible {name : String} (h : IsName name) : Visible name :=
  fun c hc => isVisible_of_continuesName (h.continuesName c hc)

theorem Number.text?_of_lt {n : Int} (h : n.natAbs < 10 ^ Number.digitLimit) :
    (Number.int n).text? = some (toString n) := by
  rw [Number.text?, Number.intText?, if_pos h]

theorem Lexeme.Listable.exists_text {v : Number} (h : (Lexeme.number v).Listable) : ∃ s, v.text? = some s := by
  obtain ⟨n, rfl, hn⟩ := h
  exact ⟨_, Number.text?_of_lt hn⟩

/-! ### Lines -/

/-- `Labelled e label p`: the line of the root of `e` consists of `label` and the position `p`. -/
inductive Expr.Labelled : Expr → String → Int → Prop where
  | number {p n : Int} : Labelled (.number p (.int n)) ("NUMBER " ++ toString n) p
  | identifier {p : Int} {name : String} : IsName name → Labelled (.identifier p name) ("IDENTIFIER " ++ name) p
  | negation {p : Int} {e : Expr} : Labelled (.unary p .negate e) "NEGATE" p
  | operator {p : Int} {op : Operator} {l r : Expr} : Labelled (.binary p (.operator op) l r) op.title p

/-- The mark in front of a position does not occur in the text. -/
def Unmarked (s : String) : Prop := '@' ∉ s.toList

@[simp] theorem unmarked_append {s t : String} : Unmarked (s ++ t) ↔ Unmarked s ∧ Unmarked t := by
  simp only [Unmarked, String.toList_append, List.mem_append, not_or]

theorem unmarked_nat (n : Nat) : Unmarked (toString n) := by
  intro hmem
  rw [Nat.toString_eq_repr, Nat.toList_repr] at hmem
  have hdigit := Nat.isDigit_of_mem_toDigits (by decide) (by decide) hmem
  cases hdigit

theorem unmarked_int (n : Int) : Unmarked (toString n) := by
  cases n with
  | ofNat n => exact unmarked_nat n
  | negSucc n => exact unmarked_append.mpr ⟨by simp [Unmarked], unmarked_nat (n + 1)⟩

/-- Two naturals with the same text are the same. -/
theorem nat_toString_inj {m n : Nat} (h : toString m = toString n) : m = n := by
  rw [Nat.toString_eq_repr, Nat.toString_eq_repr, ← String.toList_inj, Nat.toList_repr, Nat.toList_repr] at h
  rw [← Nat.ofDigitChars_ten_toDigits (n := m), h, Nat.ofDigitChars_ten_toDigits]

/-- The text of a natural has no sign. -/
theorem nat_toString_ne_neg (m n : Nat) : toString m ≠ "-" ++ toString n := by
  intro h
  have hmem : '-' ∈ (toString m).toList := by simp [h]
  rw [Nat.toString_eq_repr, Nat.toList_repr] at hmem
  have hdigit := Nat.isDigit_of_mem_toDigits (by decide) (by decide) hmem
  cases hdigit

/-- Two integers with the same text are the same. -/
theorem int_toString_inj {m n : Int} (h : toString m = toString n) : m = n := by
  cases m with
  | ofNat m =>
    cases n with
    | ofNat n => rw [nat_toString_inj h]
    | negSucc n => exact absurd h (nat_toString_ne_neg m (n + 1))
  | negSucc m =>
    cases n with
    | ofNat n => exact absurd h.symm (nat_toString_ne_neg n (m + 1))
    | negSucc n =>
      have habs : toString (m + 1) = toString (n + 1) := (String.append_right_inj _).mp h
      rw [Nat.succ.inj (nat_toString_inj habs)]

theorem IsName.unmarked {name : String} (h : IsName name) : Unmarked name := by
  intro hmem
  have hcontinues := h.continuesName _ hmem
  cases hcontinues

/-- What stands before the mark and what stands behind it can be told apart. -/
theorem append_mark_inj {s s' t t' : String} (hs : Unmarked s) (ht : Unmarked t)
    (h : s ++ " @" ++ t = s' ++ " @" ++ t') : s = s' ∧ t = t' := by
  have hlist : (s.toList ++ [' ']) ++ '@' :: t.toList = (s'.toList ++ [' ']) ++ '@' :: t'.toList := by
    simpa using congrArg String.toList h
  have hspace : '@' ∉ s.toList ++ [' '] := by simpa [Unmarked] using hs
  obtain ⟨hfront, -, hback⟩ := (List.append_cons_inj_of_notMem hspace ht).mp hlist
  exact ⟨String.toList_inj.mp (List.append_cancel_right hfront), String.toList_inj.mp hback⟩

theorem Operator.title_injective : Function.Injective title := injective_of_forall (by decide)

namespace Expr.Labelled

variable {e e' : Expr} {label : String} {p : Int}

theorem unmarked (h : e.Labelled label p) : Unmarked label := by
  cases h with
  | number => exact unmarked_append.mpr ⟨by simp [Unmarked], unmarked_int _⟩
  | identifier hname => exact unmarked_append.mpr ⟨by simp [Unmarked], hname.unmarked⟩
  | negation => simp [Unmarked]
  | @operator _ op => cases op <;> simp [Unmarked, Operator.title]

theorem head (h : e.Labelled label p) : ∃ c w, label.toList = c :: w ∧ c ≠ ' ' := by
  cases h with
  | number | identifier | negation => simp
  | @operator _ op => cases op <;> simp [Operator.title]

/-- The label of a node tells what the node is. -/
theorem rootInstr_eq {label' : String} (h : e.Labelled label p) (h' : e'.Labelled label' p) (heq : label = label') :
    e.rootInstr = e'.rootInstr := by
  have hlist := congrArg String.toList heq
  cases h with
  | number =>
    cases h' with
    | number =>
      rw [rootInstr, rootInstr, int_toString_inj ((String.append_right_inj _).mp heq)]
    | identifier | negation => simp at hlist
    | @operator _ op => cases op <;> simp [Operator.title] at hlist
  | identifier =>
    cases h' with
    | identifier =>
      rw [String.append_right_inj] at heq
      rw [rootInstr, rootInstr, heq]
    | number | negation => simp at hlist
    | @operator _ op => cases op <;> simp [Operator.title] at hlist
  | negation =>
    cases h' with
    | negation => rfl
    | number | identifier => simp at hlist
    | @operator _ op => cases op <;> simp [Operator.title] at hlist
  | @operator _ op =>
    cases h' with
    | operator => rw [rootInstr, rootInstr, Operator.title_injective heq]
    | number | identifier | negation => cases op <;> simp [Operator.title] at hlist

end Expr.Labelled

/-! ### The lines of a tree -/

/-- How many spaces a line starts with. -/
def indentation (line : String) : Nat := (line.toList.takeWhile (· == ' ')).length

theorem Expr.Labelled.indentation_line {e : Expr} {label : String} {p : Int} (h : e.Labelled label p) (n : Nat) :
    indentation ("".pushn ' ' n ++ (label ++ " @" ++ toString p)) = n := by
  obtain ⟨c, w, hlabel, hc⟩ := h.head
  rw [indentation, String.toList_append, toList_pushn, String.toList_append, String.toList_append, hlabel]
  simp [hc]

theorem TreeListing.append_lines {a b : TreeListing} (h : a.stopped = none) : (a ++ b).lines = a.lines ++ b.lines := by
  show (TreeListing.append a b).lines = _
  rw [TreeListing.append, h]

namespace Expr.Nodes

variable {e e' : Expr}

theorem stopped (h : e.Nodes Lexeme.Listable) (level : Nat) : (e.listingAt level).stopped = none :=
  h.stopped_listingAt (fun _ => Lexeme.Listable.exists_text) level

/-- The line of the root comes first, and then the lines of the operands. -/
theorem lines_eq (h : e.Nodes Lexeme.Listable) (level : Nat) :
    ∃ label p, e.Labelled label p ∧ (e.listingAt level).lines =
      ("".pushn ' ' (2 * level) ++ (label ++ " @" ++ toString p)) ::
        e.children.flatMap fun child => (child.listingAt (level + 1)).lines := by
  cases e with
  | number p v =>
    obtain ⟨n, rfl, hn⟩ := h
    refine ⟨_, p, .number, ?_⟩
    rw [listingAt, numberListing, Number.text?_of_lt hn]
    rfl
  | identifier p name => exact ⟨_, p, .identifier h, rfl⟩
  | unary p op e =>
    cases op with
    | negate =>
      refine ⟨_, p, .negation, ?_⟩
      rw [listingAt, TreeListing.append_lines rfl, children, List.flatMap_singleton]
      rfl
    | other value => exact h.elim
  | binary p d l r =>
    obtain ⟨⟨op, rfl⟩, hl, -⟩ := h
    refine ⟨_, p, .operator, ?_⟩
    rw [listingAt, TreeListing.append_lines rfl, TreeListing.append_lines (hl.stopped _), children, List.flatMap_cons,
      List.flatMap_singleton]
    rfl
  | foreign object => exact h.elim

theorem length_lines (h : e.Nodes Lexeme.Listable) (level : Nat) : (e.listingAt level).lines.length = e.size := by
  induction e generalizing level with
  | number | identifier =>
    obtain ⟨label, p, -, hlines⟩ := h.lines_eq level
    rw [hlines]
    rfl
  | unary p op e ih =>
    cases op with
    | negate =>
      obtain ⟨label, p, -, hlines⟩ := h.lines_eq level
      rw [hlines, children, List.flatMap_singleton, List.length_cons, ih h, size, Nat.add_comm]
    | other value => exact h.elim
  | binary p d l r ihl ihr =>
    obtain ⟨label, p, -, hlines⟩ := h.lines_eq level
    rw [hlines, children, List.flatMap_cons, List.flatMap_singleton, List.length_cons, List.length_append, ihl h.2.1,
      ihr h.2.2, size]
    omega
  | foreign object => exact h.elim

/-- The lines of the lowest nodes are indented most. -/
theorem max?_indentation (h : e.Nodes Lexeme.Listable) (level : Nat) :
    ((e.listingAt level).lines.map indentation).max? = some (2 * (level + e.height - 1)) := by
  induction e generalizing level with
  | number | identifier =>
    obtain ⟨label, p, hlabel, hlines⟩ := h.lines_eq level
    rw [hlines, List.map_cons, hlabel.indentation_line]
    rfl
  | unary p op e ih =>
    cases op with
    | negate =>
      obtain ⟨label, p, hlabel, hlines⟩ := h.lines_eq level
      have hmax : max (2 * level) (2 * (level + 1 + e.height - 1)) = 2 * (level + (e.height + 1) - 1) := by omega
      rw [hlines, List.map_cons, hlabel.indentation_line, children, List.flatMap_singleton, List.max?_cons, ih h,
        height, ← hmax]
      rfl
    | other value => exact h.elim
  | binary p d l r ihl ihr =>
    obtain ⟨label, p, hlabel, hlines⟩ := h.lines_eq level
    have hmax : max (2 * level) (max (2 * (level + 1 + l.height - 1)) (2 * (level + 1 + r.height - 1))) =
        2 * (level + (max l.height r.height + 1) - 1) := by omega
    rw [hlines, List.map_cons, hlabel.indentation_line, children, List.flatMap_cons, List.flatMap_singleton,
      List.map_append, List.max?_cons, List.max?_append_eq_some (ihl h.2.1 _) (ihr h.2.2 _), height, ← hmax]
    rfl
  | foreign object => exact h.elim

/-- Where two lists of lines begin with the lines of a tree, the roots of the trees are the same, and so is what
stands behind their lines. -/
theorem append_lines_eq (h : e.Nodes Lexeme.Listable) (h' : e'.Nodes Lexeme.Listable) {level : Nat}
    {rest rest' : List String} (heq : (e.listingAt level).lines ++ rest = (e'.listingAt level).lines ++ rest') :
    e.rootInstr = e'.rootInstr ∧
      (e.children.flatMap fun child => (child.listingAt (level + 1)).lines) ++ rest =
        (e'.children.flatMap fun child => (child.listingAt (level + 1)).lines) ++ rest' := by
  obtain ⟨label, p, hlabel, hlines⟩ := h.lines_eq level
  obtain ⟨label', p', hlabel', hlines'⟩ := h'.lines_eq level
  rw [hlines, hlines', List.cons_append, List.cons_append] at heq
  obtain ⟨hline, hrest⟩ := List.cons.inj heq
  obtain ⟨rfl, hp⟩ := append_mark_inj hlabel.unmarked (unmarked_int p) ((String.append_right_inj _).mp hline)
  obtain rfl := int_toString_inj hp
  exact ⟨hlabel.rootInstr_eq hlabel' rfl, hrest⟩

/-- Where a list of lines begins with the lines of a tree, it does so in one way. -/
theorem append_lines_inj (h : e.Nodes Lexeme.Listable) (h' : e'.Nodes Lexeme.Listable) {level : Nat}
    {rest rest' : List String} (heq : (e.listingAt level).lines ++ rest = (e'.listingAt level).lines ++ rest') :
    e = e' ∧ rest = rest' := by
  -- what stands behind the lines is general: for a left operand, the right one stands there
  induction e generalizing e' level rest rest' with
  | number p v =>
    obtain ⟨hroot, hrest⟩ := h.append_lines_eq h' heq
    cases e' with
    | number =>
      cases hroot
      exact ⟨rfl, hrest⟩
    | identifier | unary | binary | foreign => cases hroot
  | identifier p name =>
    obtain ⟨hroot, hrest⟩ := h.append_lines_eq h' heq
    cases e' with
    | identifier =>
      cases hroot
      exact ⟨rfl, hrest⟩
    | number | unary | binary | foreign => cases hroot
  | unary p op e ih =>
    obtain ⟨hroot, hrest⟩ := h.append_lines_eq h' heq
    cases e' with
    | unary p' op' e' =>
      cases op with
      | other => exact h.elim
      | negate =>
        cases op' with
        | other => exact h'.elim
        | negate =>
          cases hroot
          rw [children, children, List.flatMap_singleton, List.flatMap_singleton] at hrest
          obtain ⟨rfl, rfl⟩ := ih h (show e'.Nodes _ from h') hrest
          exact ⟨rfl, rfl⟩
    | number | identifier | binary | foreign => cases hroot
  | binary p d l r ihl ihr =>
    obtain ⟨hroot, hrest⟩ := h.append_lines_eq h' heq
    cases e' with
    | binary p' d' l' r' =>
      cases hroot
      simp only [children, List.flatMap_cons, List.flatMap_nil, List.append_nil, List.append_assoc] at hrest
      obtain ⟨rfl, hright⟩ := ihl h.2.1 h'.2.1 hrest
      obtain ⟨rfl, rfl⟩ := ihr h.2.2 h'.2.2 hright
      exact ⟨rfl, rfl⟩
    | number | identifier | unary | foreign => cases hroot
  | foreign object => exact h.elim

theorem text?_eq (h : e.Nodes Lexeme.Listable) : e.text? = some ("\n".intercalate (e.listingAt 0).lines) :=
  text?_eq_some_iff.mpr ⟨h.stopped 0, rfl⟩

/-- The lines of a listable tree are found again in its text. -/
theorem lines?_eq (h : e.Nodes Lexeme.Listable) : (Stage.tree e).lines? = some (e.listingAt 0).lines := by
  rw [Stage.lines?, h.text?_eq, Option.map_some, h.lines_text fun _ => IsName.visible]

/-- So they are if it is cut at line feeds alone. -/
theorem splitOn_text (h : e.Nodes Lexeme.Listable) :
    ("\n".intercalate (e.listingAt 0).lines).toList.splitOn '\n' = (e.listingAt 0).lines.map String.toList := by
  rw [String.toList_intercalate]
  refine List.splitOn_intercalate '\n' (fun cs hcs hmem => ?_) fun hnil => ?_
  · obtain ⟨l, hl, rfl⟩ := List.mem_map.mp hcs
    have hvisible := (h.listing_shows (fun _ => IsName.visible) 0 l hl).1 _ hmem
    cases hvisible
  · have hlength := h.length_lines 0
    rw [List.map_eq_nil_iff.mp hnil] at hlength
    exact absurd hlength (Nat.ne_of_lt e.size_pos)

theorem text?_inj (h : e.Nodes Lexeme.Listable) (h' : e'.Nodes Lexeme.Listable) (heq : e.text? = e'.text?) :
    e = e' := by
  have hlines : (Stage.tree e).lines? = (Stage.tree e').lines? := by rw [Stage.lines?, Stage.lines?, heq]
  rw [h.lines?_eq, h'.lines?_eq, Option.some.injEq] at hlines
  exact (h.append_lines_inj h' (congrArg (· ++ []) hlines)).1

end Expr.Nodes

/-- **The listing of a tree is faithful.** Let a tree be made of integers within the limit on digits, names,
changes of sign and operators. Its text has as many lines as the tree has nodes, and these are the lines of
the stage. The line with the largest indentation has two spaces for each level of the tree but the first.
And two such trees with the same text are the same; their positions are part of them. -/
theorem tree_listing_faithful :
    (∀ e : Expr, e.Nodes Lexeme.Listable → ∃ (text : String) (lines : List String), e.text? = some text ∧
      text.toList.splitOn '\n' = lines.map String.toList ∧ lines.length = e.size ∧
      (Stage.tree e).lines? = some lines ∧ (lines.map indentation).max? = some (2 * (e.depth - 1))) ∧
    ∀ e e' : Expr, e.Nodes Lexeme.Listable → e'.Nodes Lexeme.Listable → e.text? = e'.text? → e = e' := by
  refine ⟨fun e h => ⟨_, _, h.text?_eq, ?_, h.length_lines 0, h.lines?_eq, ?_⟩, fun e e' h h' => h.text?_inj h'⟩
  · exact h.splitOn_text
  · rw [h.max?_indentation, Expr.depth_eq_height, Nat.zero_add]

/-- The tree of `-(-7 div mod)`, made by hand with a floor division, a negative number and a name that no text can
have, is listed on four lines, the last two of them indented by four spaces. With the operands at each other's
position it has another text. -/
theorem tree_listing_faithful_reserved_word :
    (∃ (text : String) (lines : List String),
      (Expr.unary 0 .negate (.binary 5 (.operator .floorDivide) (.number 2 (.int (-7))) (.identifier 9 "mod"))).text? =
        some text ∧
      text.toList.splitOn '\n' = lines.map String.toList ∧ lines.length = 4 ∧
      (lines.map indentation).max? = some 4) ∧
    (Expr.binary 5 (.operator .floorDivide) (.number 2 (.int (-7))) (.identifier 9 "mod")).text? ≠
      (Expr.binary 5 (.operator .floorDivide) (.number 9 (.int (-7))) (.identifier 2 "mod")).text? := by
  have hname : IsName "mod" := ⟨'m', ['o', 'd'], rfl, rfl, List.all_eq_true.mp rfl⟩
  have hnodes : ∀ p q, (Expr.binary 5 (.operator .floorDivide) (.number p (.int (-7))) (.identifier q "mod")).Nodes
      Lexeme.Listable := fun _ _ => ⟨⟨.floorDivide, rfl⟩, ⟨-7, rfl, by decide +kernel⟩, hname⟩
  obtain ⟨text, lines, htext, hsplit, hlength, -, hmax⟩ := tree_listing_faithful.1
    (.unary 0 .negate (.binary 5 (.operator .floorDivide) (.number 2 (.int (-7))) (.identifier 9 "mod"))) (hnodes 2 9)
  refine ⟨⟨text, lines, htext, hsplit, hlength, hmax⟩, fun heq => ?_⟩
  cases tree_listing_faithful.2 _ _ (hnodes 2 9) (hnodes 9 2) heq

end Abacus
