import Abacus.Proofs.Integers
import Abacus.Proofs.TokenOrder

/-!
# Names

No name has a value, so a text with a name in it has none. Operands are evaluated from left to
right, and the walk through a tree meets its nodes in the same order. So when a name is what
stops the evaluation, it is the leftmost one of the tree, and that is the leftmost one of the text.

Something else can stop the evaluation before it comes to a name, but only behind a division:
up to the first name everything else is integer arithmetic, which never fails.
-/

namespace Abacus

open Calculation

/-! ### The leftmost name of a tree -/

namespace Expr

/-- Is the node a name? -/
def isName : Expr → Bool
  | identifier .. => true
  | _ => false

/-- The first name that the walk through a tree meets. -/
def leftmostName? (e : Expr) : Option Expr := e.inorder.find? isName

@[simp] theorem leftmostName?_unary (p : Int) (op : UnaryOperator) (e : Expr) :
    (unary p op e).leftmostName? = e.leftmostName? := by
  simp [leftmostName?, inorder, isName]

@[simp] theorem leftmostName?_binary (p : Int) (value : Datum) (l r : Expr) :
    (binary p value l r).leftmostName? = l.leftmostName?.or r.leftmostName? := by
  simp [leftmostName?, inorder, isName, List.find?_append]

/-- A tree with a value holds no name. -/
theorem leftmostName?_of_eval {e : Expr} {v : Number} (h : e.eval = .ok v) : e.leftmostName? = none := by
  induction e generalizing v with
  | number => rfl
  | identifier | foreign => cases h
  | unary p op e ih =>
    cases op with
    | negate =>
      obtain ⟨a, ha, -⟩ := Except.bind_eq_ok_iff.mp h
      rw [leftmostName?_unary, ih ha]
    | other value => cases h
  | binary p value l r ihl ihr =>
    obtain ⟨a, ha, h⟩ := Except.bind_eq_ok_iff.mp h
    obtain ⟨b, hb, -⟩ := Except.bind_eq_ok_iff.mp h
    rw [leftmostName?_binary, ihl ha, ihr hb]
    rfl

/-- A name that stops the evaluation is the leftmost one. -/
theorem leftmostName?_of_unknownName {e : Expr} {name : String} {p : Int}
    (h : e.eval = .error (.unknownName name p)) : e.leftmostName? = some (identifier p name) := by
  induction e with
  | number | foreign => cases h
  | identifier =>
    cases h
    rfl
  | unary q op e ih =>
    cases op with
    | negate => rw [leftmostName?_unary, ih (eval_negate_eq_error h)]
    | other value => cases h
  | binary q value l r ihl ihr =>
    rw [leftmostName?_binary]
    obtain h | ⟨a, ha, h⟩ | ⟨a, b, -, -, ⟨-, h⟩ | ⟨op, fault, -, -, h⟩⟩ := eval_binary_eq_error h
    · rw [ihl h]
      rfl
    · rw [leftmostName?_of_eval ha, ihr h]
      rfl
    · cases h
    · cases h

/-! ### Integer arithmetic before a name -/

/-- What the root of the tree stands for has the property, and is nothing foreign. -/
def Root (P : Lexeme → Prop) : Expr → Prop
  | number _ v => P (.number v)
  | identifier _ name => P (.identifier name)
  | unary _ .negate _ => True
  | unary _ (.other _) _ | foreign _ => False
  | binary _ d _ _ => P (.operator d)

theorem nodes_of_forall_root {P : Lexeme → Prop} {e : Expr} (h : ∀ m ∈ e.inorder, m.Root P) : e.Nodes P := by
  induction e with
  | number | identifier => exact h _ (List.mem_singleton_self _)
  | unary p op e ih =>
    have hroot := h _ List.mem_cons_self
    cases op with
    | negate => exact ih fun m hm => h m (List.mem_cons_of_mem _ hm)
    | other value => exact hroot.elim
  | binary p d l r ihl ihr =>
    exact ⟨h (binary p d l r) (by simp [inorder]), ihl fun m hm => h m (by simp [inorder, hm]),
      ihr fun m hm => h m (by simp [inorder, hm])⟩
  | foreign object => exact (h _ (List.mem_singleton_self _)).elim

/-- With nothing but integer arithmetic before it, a name stops the evaluation. -/
theorem eval_eq_unknownName {e : Expr} {front rest : List Expr} {name : String} {p : Int}
    (h : e.inorder = front ++ identifier p name :: rest) (hfront : ∀ m ∈ front, m.Root Lexeme.Integral) :
    e.eval = .error (.unknownName name p) := by
  induction e generalizing front rest with
  | number | foreign => cases front <;> simp [inorder] at h
  | identifier q n =>
    cases front with
    | nil =>
      cases h
      rfl
    | cons m front => simp [inorder] at h
  | unary q op e ih =>
    cases front with
    | nil => cases h
    | cons m front =>
      obtain ⟨rfl, htail⟩ := List.cons.inj h
      obtain ⟨hroot, hoperand⟩ := List.forall_mem_cons.mp hfront
      cases op with
      | negate =>
        rw [eval, ih htail hoperand]
        rfl
      | other value => exact hroot.elim
  | binary q d l r ihl ihr =>
    -- the name stands in the right operand, behind all of the left one, or in the left operand
    obtain ⟨behind, rfl, hr⟩ | ⟨behind, hl, hrest⟩ := List.append_eq_append_iff.mp h
    · cases behind with
      | nil => cases hr
      | cons m behind =>
        obtain ⟨hleft, hright⟩ := List.forall_mem_append.mp hfront
        obtain ⟨n, -, hn⟩ := (nodes_of_forall_root hleft).eval_eq_int
        have hname := ihr (List.cons.inj hr).2 (List.forall_mem_cons.mp hright).2
        rw [eval, hn, hname]
        rfl
    · cases behind with
      | nil => cases hrest
      | cons m behind =>
        obtain ⟨rfl, -⟩ := List.cons.inj hrest
        rw [eval, ihl hl hfront]
        rfl

end Expr

/-! ### The leftmost name of a text -/

namespace Parse

theorem Shows.root {P : Lexeme → Prop} {e : Expr} {o : Occurrence} (h : Shows e o) (ho : P o.token.lexeme) :
    e.Root P := by
  cases h with
  | number ht | identifier ht | operator ht => rwa [ht] at ho
  | negation => trivial

theorem Shows.eq_identifier {e : Expr} {o : Occurrence} {name : String} (h : Shows e o)
    (ho : o.token.lexeme = .identifier name) : e = .identifier o.token.position name := by
  cases h with
  | identifier ht =>
    rw [ht] at ho
    cases ho
    rfl
  | number ht | operator ht =>
    rw [ht] at ho
    cases ho
  | negation hs =>
    obtain ⟨d, hd, -⟩ := hs
    rw [hd] at ho
    cases ho

/-- The walk through a tree meets a name behind nodes that show tokens before the name. -/
theorem Derives.inorder_at_name {n : Nonterminal} {before after : List Token} {t : Token} {e : Expr} {name : String}
    (h : Derives n (before ++ t :: after) e) (ht : t.lexeme = .identifier name) :
    ∃ front rest, e.inorder = front ++ .identifier t.position name :: rest ∧
      ∀ m ∈ front, ∃ o, Shows m o ∧ o.token ∈ before := by
  have hkept : kept (before ++ t :: after) =
      kept before ++ ⟨t, Parse.dueBehind true before⟩ :: (occurrences false after).filter Occurrence.leavesNode := by
    simp [kept, occurrences_append, occurrences, ht, callsForOperand, Occurrence.leavesNode]
  have hshows := h.shows
  rw [hkept] at hshows
  have hfront := List.forall₂_take_append _ _ _ hshows
  obtain ⟨m, rest, hm, -, hdrop⟩ := List.forall₂_cons_right_iff.mp (List.forall₂_drop_append _ _ _ hshows)
  refine ⟨e.inorder.take (kept before).length, rest, ?_, fun m' hm' => ?_⟩
  · rw [← hm.eq_identifier ht, ← hdrop, List.take_append_drop]
  · obtain ⟨i, hi, rfl⟩ := List.getElem_of_mem hm'
    have hi' : i < (kept before).length := hfront.length_eq ▸ hi
    exact ⟨_, hfront.get hi hi', (map_token_kept_sublist before).mem (List.mem_map_of_mem (List.getElem_mem hi'))⟩

/-- A token other than the last one stands in the body of a text. -/
theorem body_eq_append {k : Nat} {cs : List Char} {before after : List Token} {t : Token}
    (h : Scan.Scans k cs (before ++ t :: after)) (ht : t.lexeme ≠ .endOfInput) :
    body (before ++ t :: after) = before ++ t :: after.dropLast := by
  have hafter : after ≠ [] := by
    rintro rfl
    have hlast := h.eq_concat.1
    rw [List.dropLast_concat] at hlast
    cases List.append_cancel_left hlast
    exact ht rfl
  rw [body_of_scans h, List.dropLast_append_of_ne_nil (List.cons_ne_nil _ _), List.dropLast_cons_of_ne_nil hafter]

end Parse

/-- An unknown name is reported where the machine met it. -/
theorem Failure.unknownName_of_ofMachine {fault : Machine.Fault} {err : Error} {name : String}
    (h : Failure.ofMachine fault = .error err) (hcause : err.cause = .unknownName name) :
    ∃ p, fault = .unknownName name p ∧ err.position = some (.ofOffset p) := by
  obtain ⟨n, p, rfl, rfl⟩ | ⟨value, p, text, -, rfl⟩ | ⟨value, p, text, -, rfl⟩ | ⟨object, -, rfl⟩ :=
    Failure.ofMachine_eq_error h <;> cases hcause
  exact ⟨p, rfl, rfl⟩

section Source

variable {source : String} {ts before after : List Token} {e : Expr} {t : Token} {name : String}

/-- The walk through the tree of a source text comes to a name of the text behind nodes for what stands before
the name. -/
theorem inorder_of_source {P : Lexeme → Prop} (hts : Scan.tokens source = .ok ts) (he : Parse.tree ts = .ok e)
    (hsplit : ts = before ++ t :: after) (ht : t.lexeme = .identifier name) (hbefore : ∀ u ∈ before, P u.lexeme) :
    ∃ front rest, e.inorder = front ++ .identifier t.position name :: rest ∧ ∀ m ∈ front, m.Root P := by
  subst hsplit
  have hderives := Parse.tree_sound he
  rw [Parse.body_eq_append (Scan.tokens_eq_ok_iff.mp hts) (by simp [ht])] at hderives
  obtain ⟨front, rest, hinorder, hfront⟩ := hderives.inorder_at_name ht
  refine ⟨front, rest, hinorder, fun m hm => ?_⟩
  obtain ⟨o, hshows, ho⟩ := hfront m hm
  exact hshows.root (hbefore _ ho)

/-- The leftmost name of a tree is that of its text. -/
theorem leftmostName?_of_source (hts : Scan.tokens source = .ok ts) (he : Parse.tree ts = .ok e)
    (hsplit : ts = before ++ t :: after) (ht : t.lexeme = .identifier name)
    (hbefore : ∀ u ∈ before, ∀ n, u.lexeme ≠ .identifier n) :
    e.leftmostName? = some (.identifier t.position name) := by
  obtain ⟨front, rest, hinorder, hfront⟩ :=
    inorder_of_source (P := fun l => ∀ n, l ≠ .identifier n) hts he hsplit ht hbefore
  refine List.find?_eq_some_iff_append.mpr ⟨rfl, front, rest, hinorder, fun m hm => ?_⟩
  cases m with
  | identifier p n => exact absurd rfl (hfront _ hm n)
  | number | unary | binary | foreign => rfl

/-- **Every name makes the evaluation fail, at the leftmost one.** Let a source text have a tree, and let
`t` be its leftmost name. Then no calculation of the text yields a value. If one reports an unknown name,
it reports `t` at its position; and if no division stands before `t`, every calculation reports it. -/
theorem unknown_name_is_leftmost (hts : Scan.tokens source = .ok ts) (he : Parse.tree ts = .ok e)
    (hsplit : ts = before ++ t :: after) (ht : t.lexeme = .identifier name)
    (hbefore : ∀ u ∈ before, ∀ n, u.lexeme ≠ .identifier n) (o : Options) :
    (∀ v, ¬ Yields o source v) ∧
    (∀ n place, Reports o source (.unknownName n) place → n = name ∧ place = some (.ofOffset t.position)) ∧
    ((∀ u ∈ before, u.lexeme ≠ .operator (.operator .divide)) →
      Reports o source (.unknownName name) (some (.ofOffset t.position))) := by
  have hleftmost := leftmostName?_of_source hts he hsplit ht hbefore
  simp only [yields_iff, reports_iff, outcome_of_tree hts he]
  refine ⟨fun v hv => ?_, fun n place => ?_, fun hdiv => ?_⟩
  · cases heval : e.eval with
    | ok a => simp [Expr.leftmostName?_of_eval heval] at hleftmost
    | error fault =>
      rw [heval] at hv
      cases hv
  · rintro ⟨err, herr, hcause, rfl⟩
    cases heval : e.eval with
    | ok a =>
      rw [heval] at herr
      cases herr
    | error fault =>
      rw [heval, Except.mapError_error, Except.error.injEq] at herr
      obtain ⟨p, rfl, hposition⟩ := Failure.unknownName_of_ofMachine herr hcause
      rw [Expr.leftmostName?_of_unknownName heval] at hleftmost
      cases hleftmost
      exact ⟨rfl, hposition⟩
  · have hwritten := (Scan.tokens_eq_ok_iff.mp hts).written
    obtain ⟨front, rest, hinorder, hfront⟩ := inorder_of_source hts he hsplit ht fun u hu =>
      (hwritten u (by simp [hsplit, hu])).integral (hbefore u hu) (hdiv u hu)
    rw [Expr.eval_eq_unknownName hinorder hfront]
    exact ⟨_, rfl, rfl, rfl⟩

end Source

/-- In `2-(x*3)/y` the product is worked out before the difference, and `x` is the name that is reported. -/
theorem unknown_name_is_leftmost_group :
    Reports .standard "2-(x*3)/y" (.unknownName "x") (some (.ofOffset 3)) ∧
      ∀ v, ¬ Yields .standard "2-(x*3)/y" v := by
  have hts : Scan.tokens "2-(x*3)/y" = .ok ([.ofLexeme (.number (.int 2)) 0,
      .ofLexeme (.operator (.operator .subtract)) 1, .ofLexeme .openParen 2] ++ .ofLexeme (.identifier "x") 3 ::
      [.ofLexeme (.operator (.operator .multiply)) 4, .ofLexeme (.number (.int 3)) 5, .ofLexeme .closeParen 6,
      .ofLexeme (.operator (.operator .divide)) 7, .ofLexeme (.identifier "y") 8, .ofLexeme .endOfInput 9]) := by
    decide +kernel
  have he : Parse.tree ([.ofLexeme (.number (.int 2)) 0,
      .ofLexeme (.operator (.operator .subtract)) 1, .ofLexeme .openParen 2] ++ .ofLexeme (.identifier "x") 3 ::
      [.ofLexeme (.operator (.operator .multiply)) 4, .ofLexeme (.number (.int 3)) 5, .ofLexeme .closeParen 6,
      .ofLexeme (.operator (.operator .divide)) 7, .ofLexeme (.identifier "y") 8, .ofLexeme .endOfInput 9]) =
        .ok (.binary 1 (.operator .subtract) (.number 0 (.int 2))
          (.binary 7 (.operator .divide)
            (.binary 4 (.operator .multiply) (.identifier 3 "x") (.number 5 (.int 3))) (.identifier 8 "y"))) := by
    decide +kernel
  obtain ⟨hyields, -, hreports⟩ :=
    unknown_name_is_leftmost hts he rfl rfl (by simp [Token.ofLexeme]) .standard
  exact ⟨hreports (by simp [Token.ofLexeme]), hyields⟩

end Abacus
