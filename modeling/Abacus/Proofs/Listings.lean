import Abacus.Proofs.Legibility
import Abacus.Proofs.Observing

/-!
# Listings of a source text

The listings of tokens, trees and code are made of words, numbers and names. The names are those of
the source text, and their characters are letters, digits and underscores. So whatever blanks and
stray characters a text may have, what is listed of it shows as it is, and each entry of a listing is
on a line of its own.
-/

namespace Abacus

open Text

/-! ### Tokens -/

theorem Datum.visible_title (d : Datum) : Visible d.title := by
  unfold title
  split
  · rename_i op _
    cases op <;> exact visible_of_all rfl
  · exact visible_of_all rfl

theorem Token.visible_line {t : Token} {line : String} (ht : t.lexeme.Legible) (h : t.line? = some line) :
    Visible line := by
  rw [line?] at h
  cases hl : t.lexeme with
  | endOfInput | openParen | closeParen =>
    simp only [hl] at h
    cases h
    exact visible_of_all rfl
  | operator d =>
    simp only [hl] at h
    cases h
    exact d.visible_title
  | number v =>
    simp only [hl] at h
    obtain ⟨text, htext, rfl⟩ := Option.map_eq_some_iff.mp h
    exact visible_append.mpr ⟨visible_append.mpr ⟨visible_of_all rfl, Number.visible_text htext⟩, visible_of_all rfl⟩
  | identifier name =>
    simp only [hl] at h ht
    cases h
    exact visible_append.mpr ⟨visible_append.mpr ⟨visible_of_all rfl, ht⟩, visible_of_all rfl⟩
  | other label =>
    rw [hl] at ht
    exact ht.elim

/-! ### Trees -/

theorem TreeListing.forall_mem_append {P : String → Prop} {a b : TreeListing} (ha : ∀ l ∈ a.lines, P l)
    (hb : ∀ l ∈ b.lines, P l) : ∀ l ∈ (a ++ b).lines, P l := by
  show ∀ l ∈ (TreeListing.append a b).lines, P l
  unfold TreeListing.append
  split
  · exact ha
  · exact List.forall_mem_append.mpr ⟨ha, hb⟩

/-- A node shows, and its line is not empty. -/
theorem TreeListing.line_shows (level : Nat) {label : String} (h : Visible label) (p : Int) :
    ∀ l ∈ (TreeListing.line level (label ++ " @" ++ toString p)).lines, Visible l ∧ l ≠ "" := by
  intro l hl
  rw [List.mem_singleton.mp hl]
  constructor
  · exact visible_append.mpr ⟨visible_spaces _, visible_append.mpr
      ⟨visible_append.mpr ⟨h, visible_of_all rfl⟩, visible_int p⟩⟩
  · simp

theorem Expr.Nodes.listing_shows {P : Lexeme → Prop} (hP : ∀ name, P (.identifier name) → Visible name) {e : Expr}
    (h : e.Nodes P) (level : Nat) : ∀ l ∈ (e.listingAt level).lines, Visible l ∧ l ≠ "" := by
  induction e generalizing level with
  | number p v =>
    rw [listingAt, numberListing]
    split
    · rename_i text htext
      exact TreeListing.line_shows level (visible_append.mpr ⟨visible_of_all rfl, Number.visible_text htext⟩) p
    · exact List.forall_mem_nil _
  | identifier p name => exact TreeListing.line_shows level (visible_append.mpr ⟨visible_of_all rfl, hP name h⟩) p
  | unary p op e ih =>
    cases op with
    | negate =>
      exact TreeListing.forall_mem_append (TreeListing.line_shows level (visible_of_all rfl) p) (ih h (level + 1))
    | other value => exact h.elim
  | binary p d l r ihl ihr =>
    obtain ⟨-, hl, hr⟩ := h
    exact TreeListing.forall_mem_append (TreeListing.line_shows level d.visible_title p)
      (TreeListing.forall_mem_append (ihl hl (level + 1)) (ihr hr (level + 1)))
  | foreign object => exact h.elim

/-- The listing of a tree is found again in its text. -/
theorem Expr.Nodes.lines_text {P : Lexeme → Prop} (hP : ∀ name, P (.identifier name) → Visible name) {e : Expr}
    (h : e.Nodes P) : lines ("\n".intercalate (e.listingAt 0).lines) = (e.listingAt 0).lines :=
  lines_intercalate (fun l hl => (h.listing_shows hP 0 l hl).1.unbroken) fun l hl => (h.listing_shows hP 0 l hl).2

theorem Expr.Nodes.visible_lines {e : Expr} {lines : List String} (he : e.Nodes Lexeme.Legible)
    (h : (Stage.tree e).lines? = some lines) : ∀ l ∈ lines, Visible l := by
  have hvisible : ∀ name, (Lexeme.identifier name).Legible → Visible name := fun _ hname => hname
  obtain ⟨text, htext, rfl⟩ := Option.map_eq_some_iff.mp h
  obtain ⟨-, rfl⟩ := text?_eq_some_iff.mp htext
  rw [he.lines_text hvisible]
  exact fun l hl => (he.listing_shows hvisible 0 l hl).1

/-! ### Code -/

theorem Datum.visible_step (d : Datum) : Visible d.step := by
  unfold step
  split
  · rename_i op _
    cases op <;> exact visible_of_all rfl
  · exact visible_of_all rfl

theorem Instr.Stands.visible_steps {i : Instr} {steps : List String} (hi : i.Stands Lexeme.Legible)
    (h : i.steps? = some steps) : ∀ step ∈ steps, Visible step := by
  cases i with
  | push p v =>
    obtain ⟨text, htext, rfl⟩ := Option.map_eq_some_iff.mp h
    refine List.forall_mem_singleton.mpr ?_
    exact visible_append.mpr ⟨visible_append.mpr ⟨visible_of_all rfl, Number.visible_text htext⟩, visible_of_all rfl⟩
  | negate p =>
    cases h
    exact List.forall_mem_singleton.mpr (visible_of_all rfl)
  | apply p d =>
    cases h
    simp only [List.forall_mem_cons]
    exact ⟨visible_of_all rfl, d.visible_step, visible_of_all rfl, List.forall_mem_nil _⟩
  | load p name =>
    cases h
    refine List.forall_mem_singleton.mpr ?_
    exact visible_append.mpr ⟨visible_append.mpr ⟨visible_of_all rfl, hi⟩, visible_of_all rfl⟩
  | foreign object => exact hi.elim

theorem visible_lines_code {code : List Instr} {lines : List String} (hcode : ∀ i ∈ code, i.Stands Lexeme.Legible)
    (h : (Stage.code code).lines? = some lines) : ∀ l ∈ lines, Visible l := by
  obtain ⟨all, hall, rfl⟩ := Option.map_eq_some_iff.mp h
  obtain ⟨steps, hsteps, hall⟩ := Option.bind_eq_some_iff.mp hall
  cases hall
  have hvisible : ∀ step ∈ steps.flatten ++ ["Pop final result from stack and return"], Visible step := by
    refine List.forall_mem_append.mpr ⟨fun step hstep => ?_, List.forall_mem_singleton.mpr (visible_of_all rfl)⟩
    obtain ⟨row, hrow, hstep⟩ := List.mem_flatten.mp hstep
    obtain ⟨i, hi, hirow⟩ := List.exists_of_mem_mapM hsteps hrow
    exact (hcode i hi).visible_steps hirow step hstep
  intro l hl
  obtain ⟨i, hi, rfl⟩ := List.mem_mapIdx.mp hl
  exact visible_append.mpr ⟨visible_append.mpr ⟨visible_nat i, visible_of_all rfl⟩, hvisible _ (List.getElem_mem hi)⟩

/-! ### Stages -/

/-- What is listed of a source text shows as it is. -/
theorem visible_lines_of_finished {source : String} {s : Stage} {lines : List String} (hs : s ∈ finished source)
    (h : s.lines? = some lines) : ∀ l ∈ lines, Visible l := by
  obtain ⟨ts, hts, hs⟩ := mem_finished hs
  have htokens := legible_of_tokens hts
  rcases hs with rfl | ⟨e, he, hs⟩
  · intro l hl
    obtain ⟨t, ht, hline⟩ := List.exists_of_mem_mapM h hl
    exact Token.visible_line (htokens t ht) hline
  · have hnodes : e.Nodes Lexeme.Legible :=
      (Parse.tree_sound he).nodes fun t ht => htokens t (Parse.mem_of_mem_body ht)
    rcases hs with rfl | rfl
    · exact hnodes.visible_lines h
    · exact visible_lines_code hnodes.emit h

/-- The listings of a source text can be printed, and there is no escape character in them. -/
theorem render?_of_finished {source : String} {s : Stage} (hs : s ∈ finished source) :
    ∃ text, s.render? = some text ∧ EscapeFree text := by
  obtain ⟨lines, hlines⟩ := lines?_of_finished source s hs
  refine ⟨_, by rw [Stage.render?, hlines]; rfl, ?_⟩
  have htitle : s.title ∈ ["TOKENS", "AST", "BYTECODE"] := by
    obtain ⟨ts, -, rfl | ⟨e, -, rfl | rfl⟩⟩ := mem_finished hs
    · exact (show Text.upper "tokens" ∈ ["TOKENS", "AST", "BYTECODE"] by decide +kernel)
    · exact (show Text.upper "ast" ∈ ["TOKENS", "AST", "BYTECODE"] by decide +kernel)
    · exact (show Text.upper "bytecode" ∈ ["TOKENS", "AST", "BYTECODE"] by decide +kernel)
  have hfree : EscapeFree s.title := by
    simp only [List.mem_cons, List.not_mem_nil, or_false] at htitle
    rcases htitle with h | h | h <;> (rw [h]; exact (visible_of_all rfl).escapeFree)
  have hbody : ∀ l ∈ lines.map ("  " ++ ·), EscapeFree l := by
    intro l hl
    obtain ⟨l', hl', rfl⟩ := List.mem_map.mp hl
    exact (visible_append.mpr ⟨visible_of_all rfl, visible_lines_of_finished hs hlines l' hl'⟩).escapeFree
  exact escapeFree_append.mpr ⟨escapeFree_append.mpr ⟨hfree, escapeFree_of_all rfl⟩,
    escapeFree_intercalate (escapeFree_of_all rfl) hbody⟩

end Abacus
