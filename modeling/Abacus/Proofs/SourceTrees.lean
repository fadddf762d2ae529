import Abacus.Proofs.Evaluation
import Abacus.Proofs.Parsing
import Abacus.Proofs.Rebuilding
import Abacus.Stage

/-!
# What comes from a source text

Tokens, trees and code can be made by hand and then hold almost anything. What a source
text gives is much plainer. Its numbers are naturals within the limit on digits, its
operators are operators and none of them is floor division, which has no spelling, and
nothing is foreign. `Written` says this of each kind of thing in turn: it goes from the
tokens of a text to its tree, along the grammar, and from the tree to its code. The first of
these steps goes for every property of lexemes, as `Nodes` says.

All that is written in this sense can be listed.
-/

namespace Abacus

/-- A natural within the limit on digits. -/
def Number.Written (v : Number) : Prop := ∃ n : Nat, v = .int n ∧ n < 10 ^ Number.digitLimit

/-- An operator with a spelling. -/
def Datum.Written (d : Datum) : Prop := ∃ op, d = .operator op ∧ op ≠ .floorDivide

/-- A lexeme that a source text can have. -/
def Lexeme.Written : Lexeme → Prop
  | .endOfInput | .openParen | .closeParen | .identifier _ => True
  | .operator d => d.Written
  | .number v => v.Written
  | .other _ => False

/-- A tree that a source text can have. -/
def Expr.Written : Expr → Prop
  | .number _ v => v.Written
  | .identifier .. => True
  | .unary _ .negate e => e.Written
  | .unary _ (.other _) _ | .foreign _ => False
  | .binary _ d l r => d.Written ∧ l.Written ∧ r.Written

/-- Every node of the tree stands for a lexeme with the property, and nothing in it is foreign. -/
def Expr.Nodes (P : Lexeme → Prop) : Expr → Prop
  | .number _ v => P (.number v)
  | .identifier _ name => P (.identifier name)
  | .unary _ .negate e => e.Nodes P
  | .unary _ (.other _) _ | .foreign _ => False
  | .binary _ d l r => P (.operator d) ∧ l.Nodes P ∧ r.Nodes P

/-- The instruction stands for a lexeme with the property, or negates, and it is not foreign. -/
def Instr.Stands (P : Lexeme → Prop) : Instr → Prop
  | .push _ v => P (.number v)
  | .negate _ => True
  | .load _ name => P (.identifier name)
  | .apply _ d => P (.operator d)
  | .foreign _ => False

/-- An instruction that the code of a source text can have. -/
def Instr.Written : Instr → Prop
  | .push _ v => v.Written
  | .negate _ | .load .. => True
  | .apply _ d => d.Written
  | .foreign _ => False

/-! ### Tokens -/

theorem Scan.Writes.written {w : List Char} {l : Lexeme} (h : Writes w l) : l.Written := by
  cases h with
  | openParen | closeParen => trivial
  | @symbol c op hs =>
    refine ⟨op, rfl, ?_⟩
    rintro rfl
    unfold Lexeme.ofSymbol? at hs
    split at hs <;> cases hs
  | number hd hlen => exact ⟨_, rfl, natOfDigits_lt_limit hd hlen⟩
  | word =>
    rw [Lexeme.ofName, Lexeme.ofWord?]
    split_ifs
    · exact ⟨.modulo, rfl, by decide⟩
    · exact ⟨.divide, rfl, by decide⟩
    · trivial

theorem Scan.Scans.written {n : Nat} {cs : List Char} {ts : List Token} (h : Scans n cs ts) :
    ∀ t ∈ ts, t.lexeme.Written :=
  h.forall_lexeme trivial fun _ _ => Writes.written

/-! ### Trees -/

/-- What holds of the tokens holds of the nodes of their tree. -/
theorem Parse.Derives.nodes {P : Lexeme → Prop} {n : Nonterminal} {w : List Token} {e : Expr} (h : Derives n w e)
    (hw : ∀ t ∈ w, P t.lexeme) : e.Nodes P := by
  induction h with
  | ofTerm _ ih | ofPrimary _ ih => exact ih hw
  | @sum v w t op l r _ hc _ _ ihl ihr | @product v w t op l r _ hc _ _ ihl ihr =>
    have ht := hw t (by simp)
    rw [show t.lexeme = _ from hc] at ht
    exact ⟨ht, ihl fun u hu => hw u (by simp [hu]), ihr fun u hu => hw u (by simp [hu])⟩
  | @number t value ht | @identifier t name ht =>
    have := hw t (List.mem_singleton_self t)
    rwa [ht] at this
  | group _ _ _ ih => exact ih fun u hu => hw u (by simp [hu])
  | plus _ _ ih | minus _ _ ih => exact ih fun u hu => hw u (List.mem_cons_of_mem _ hu)

theorem Expr.written_iff_nodes (e : Expr) : e.Written ↔ e.Nodes Lexeme.Written := by
  induction e with
  | number | identifier | foreign => exact Iff.rfl
  | unary p op e ih =>
    cases op with
    | negate => exact ih
    | other value => exact Iff.rfl
  | binary p d l r ihl ihr => exact and_congr Iff.rfl (and_congr ihl ihr)

/-- Written tokens make written trees. -/
theorem Parse.Derives.written {n : Nonterminal} {w : List Token} {e : Expr} (h : Derives n w e)
    (hw : ∀ t ∈ w, t.lexeme.Written) : e.Written :=
  e.written_iff_nodes.mpr (h.nodes hw)

theorem Parse.mem_of_mem_body {ts : List Token} {t : Token} (h : t ∈ body ts) : t ∈ ts := by
  have hend := List.mem_takeWhile_imp h
  exact mem_of_mem_close ((List.takeWhile_sublist _).mem h) (by simpa using hend)

/-- The tree of a source text. -/
theorem written_of_tree {source : String} {ts : List Token} {e : Expr} (hts : Scan.tokens source = .ok ts)
    (he : Parse.tree ts = .ok e) : e.Written :=
  (Parse.tree_sound he).written fun t ht =>
    (Scan.tokens_eq_ok_iff.mp hts).written t (Parse.mem_of_mem_body ht)

/-! ### Code -/

theorem Expr.Nodes.codable {P : Lexeme → Prop} {e : Expr} (h : e.Nodes P) : e.Codable := by
  induction e with
  | number | identifier => trivial
  | unary p op e ih =>
    cases op with
    | negate => exact ih h
    | other value => exact h.elim
  | binary p d l r ihl ihr => exact ⟨ihl h.2.1, ihr h.2.2⟩
  | foreign object => exact h.elim

theorem Expr.Written.codable {e : Expr} (h : e.Written) : e.Codable := (e.written_iff_nodes.mp h).codable

/-- What holds of the nodes of a tree holds of the instructions of its code. -/
theorem Expr.Nodes.emit {P : Lexeme → Prop} {e : Expr} (h : e.Nodes P) : ∀ i ∈ e.emit.code, i.Stands P := by
  induction e with
  | number | identifier =>
    intro i hi
    rw [List.mem_singleton.mp hi]
    exact h
  | unary p op e ih =>
    cases op with
    | negate =>
      intro i hi
      rw [Expr.Codable.emit_negate (Expr.Nodes.codable (e := e) h), List.mem_append, List.mem_singleton] at hi
      rcases hi with hi | rfl
      · exact ih h i hi
      · trivial
    | other value => exact h.elim
  | binary p d l r ihl ihr =>
    obtain ⟨hd, hl, hr⟩ := h
    intro i hi
    rw [Expr.Codable.emit_binary hl.codable hr.codable, List.mem_append, List.mem_append, List.mem_singleton] at hi
    rcases hi with hi | hi | rfl
    · exact ihl hl i hi
    · exact ihr hr i hi
    · exact hd
  | foreign object => exact h.elim

theorem Expr.Written.emit {e : Expr} (h : e.Written) : ∀ i ∈ e.emit.code, i.Written := by
  intro i hi
  have hi := (e.written_iff_nodes.mp h).emit i hi
  cases i with
  | push | negate | load | apply | foreign => exact hi

/-! ### Listings -/

theorem Number.Written.text {v : Number} (h : v.Written) : ∃ s, v.text? = some s := by
  obtain ⟨n, rfl, hn⟩ := h
  exact ⟨_, text?_int hn⟩

theorem lines?_tokens {ts : List Token} (h : ∀ t ∈ ts, t.lexeme.Written) :
    ∃ lines, (Stage.tokens ts).lines? = some lines := by
  refine List.exists_mapM_eq_some fun t ht => ?_
  have hw := h t ht
  rw [Token.line?]
  cases hl : t.lexeme with
  | number v =>
    rw [hl] at hw
    obtain ⟨s, hs⟩ := Number.Written.text hw
    exact ⟨_, by simp only [hs]; rfl⟩
  | endOfInput | operator | openParen | closeParen | identifier | other => exact ⟨_, rfl⟩

theorem TreeListing.append_stopped {a b : TreeListing} (ha : a.stopped = none) (hb : b.stopped = none) :
    (a ++ b).stopped = none := by
  show (TreeListing.append a b).stopped = none
  rw [TreeListing.append, ha]
  exact hb

/-- The listing of a tree is complete if all its numbers have a text. -/
theorem Expr.Nodes.stopped_listingAt {P : Lexeme → Prop} (hP : ∀ v, P (.number v) → ∃ s, v.text? = some s) {e : Expr}
    (h : e.Nodes P) (level : Nat) : (e.listingAt level).stopped = none := by
  induction e generalizing level with
  | number p v =>
    obtain ⟨s, hs⟩ := hP v h
    rw [Expr.listingAt, Expr.numberListing, hs]
    rfl
  | identifier => rfl
  | unary p op e ih =>
    cases op with
    | negate => exact TreeListing.append_stopped rfl (ih h _)
    | other value => exact h.elim
  | binary p d l r ihl ihr =>
    exact TreeListing.append_stopped rfl (TreeListing.append_stopped (ihl h.2.1 _) (ihr h.2.2 _))
  | foreign object => exact h.elim

theorem Expr.text?_eq_some_iff {e : Expr} {text : String} :
    e.text? = some text ↔ (e.listingAt 0).stopped = none ∧ "\n".intercalate (e.listingAt 0).lines = text := by
  rw [text?, listing]
  rcases e.listingAt 0 with ⟨lines, _ | level⟩ <;> simp

theorem lines?_tree {e : Expr} (h : e.Written) : ∃ lines, (Stage.tree e).lines? = some lines := by
  have hstop := (e.written_iff_nodes.mp h).stopped_listingAt (fun _ => Number.Written.text) 0
  exact ⟨_, by rw [Stage.lines?, Expr.text?_eq_some_iff.mpr ⟨hstop, rfl⟩]; rfl⟩

theorem lines?_code {code : List Instr} (h : ∀ i ∈ code, i.Written) :
    ∃ lines, (Stage.code code).lines? = some lines := by
  have hsteps : ∃ steps, code.mapM Instr.steps? = some steps := by
    refine List.exists_mapM_eq_some fun i hi => ?_
    cases i with
    | push p v =>
      obtain ⟨s, hs⟩ := Number.Written.text (h _ hi)
      exact ⟨_, by rw [Instr.steps?, hs]; rfl⟩
    | negate | apply | load | foreign => exact ⟨_, rfl⟩
  obtain ⟨steps, hsteps⟩ := hsteps
  exact ⟨_, by rw [Stage.lines?, Instr.listing?, Instr.allSteps?, hsteps]; rfl⟩

end Abacus
