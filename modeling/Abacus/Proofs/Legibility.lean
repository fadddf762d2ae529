import Abacus.Proofs.SourceTrees
import Abacus.Text.Lines

/-!
# Text that shows as it is

Most of what the calculator writes consists of letters, digits, marks and spaces of ASCII. Such a
text breaks no line and moves no cursor. This module says so of the texts of numbers, and says
what it is good for: lines without ends of line in them can be joined and are found again, and a
text without escape characters holds nothing that an output could take for a command.
-/

namespace Abacus

namespace Text

/-! ### Visible characters -/

/-- Is the character one of ASCII that shows, or a space? -/
def isVisible (c : Char) : Bool := 0x20 ≤ c.toNat && c.toNat ≤ 0x7E

/-- Every character of the text shows. -/
def Visible (s : String) : Prop := ∀ c ∈ s.toList, isVisible c = true

theorem isVisible_iff (c : Char) : isVisible c = true ↔ 32 ≤ c.toNat ∧ c.toNat ≤ 126 := by
  simp [isVisible]

theorem isVisible_of_isDigit {c : Char} (h : c.isDigit = true) : isVisible c = true := by
  rw [Scan.isDigit_iff] at h
  rw [isVisible_iff]
  omega

theorem isVisible_of_continuesName {c : Char} (h : Lexeme.continuesName c = true) : isVisible c = true := by
  rw [Scan.continuesName_iff, Scan.startsName_iff, Scan.isDigit_iff] at h
  rw [isVisible_iff]
  omega

@[simp] theorem visible_append {s t : String} : Visible (s ++ t) ↔ Visible s ∧ Visible t := by
  simp only [Visible, String.toList_append, List.forall_mem_append]

theorem visible_ofList {cs : List Char} : Visible (String.ofList cs) ↔ ∀ c ∈ cs, isVisible c = true := by
  rw [Visible, String.toList_ofList]

/-- For texts that are written out: a literal is made of the list of its characters. -/
theorem visible_of_all {cs : List Char} (h : cs.all isVisible = true) : Visible (String.ofList cs) :=
  visible_ofList.mpr (List.all_eq_true.mp h)

theorem toList_pushn (s : String) (c : Char) (n : Nat) : (s.pushn c n).toList = s.toList ++ List.replicate n c := by
  unfold String.pushn
  induction n with
  | zero => simp [Nat.repeat]
  | succ n ih => rw [Nat.repeat, String.toList_push, ih, List.replicate_succ', List.append_assoc]

theorem visible_spaces (n : Nat) : Visible ("".pushn ' ' n) := by
  intro c hc
  rw [toList_pushn] at hc
  rw [List.eq_of_mem_replicate hc]
  rfl

/-! ### Numbers -/

theorem isVisible_of_mem_toDigits {n : Nat} {c : Char} (h : c ∈ Nat.toDigits 10 n) : isVisible c = true :=
  isVisible_of_isDigit (Nat.isDigit_of_mem_toDigits (by decide) (by decide) h)

theorem visible_nat (n : Nat) : Visible (toString n) := by
  rw [Nat.toString_eq_repr, Visible, Nat.toList_repr]
  exact fun _ => isVisible_of_mem_toDigits

theorem visible_int (n : Int) : Visible (toString n) := by
  cases n with
  | ofNat n => exact visible_nat n
  | negSucc n => exact visible_append.mpr ⟨visible_of_all rfl, visible_nat (n + 1)⟩

end Text

open Text

namespace Decimal

theorem isVisible_of_mem_significant {d : Decimal} {c : Char} (h : c ∈ d.significant) : isVisible c = true := by
  rw [significant, List.mem_reverse] at h
  exact isVisible_of_mem_toDigits (List.mem_reverse.mp ((List.dropWhile_sublist _).mem h))

theorem isVisible_of_mem_positional {digits : List Char} (hdigits : ∀ c ∈ digits, isVisible c = true) {place : Int} :
    ∀ c ∈ positional digits place, isVisible c = true := by
  have hzeros : ∀ n, ∀ c ∈ List.replicate n '0', isVisible c = true := by
    intro n c hc
    rw [List.eq_of_mem_replicate hc]
    rfl
  unfold positional
  split
  · simp only [List.forall_mem_cons, List.forall_mem_append]
    exact ⟨rfl, rfl, hzeros _, hdigits⟩
  · simp only [List.forall_mem_cons, List.forall_mem_append]
    refine ⟨fun c hc => ?_, rfl, ?_⟩
    · rcases List.mem_append.mp (List.mem_of_mem_take hc) with hc | hc
      · exact hdigits c hc
      · exact hzeros _ c hc
    · split
      · exact hzeros 1
      · exact fun c hc => hdigits c (List.mem_of_mem_drop hc)

theorem visible_exponentText (e : Int) : Visible (exponentText e) := by
  unfold exponentText
  refine visible_append.mpr ⟨?_, ?_⟩
  · split
    · exact visible_of_all rfl
    · exact visible_of_all rfl
  · split
    · exact visible_append.mpr ⟨visible_of_all rfl, visible_nat _⟩
    · exact visible_nat _

theorem isVisible_of_mem_scientific {digits : List Char} (hdigits : ∀ c ∈ digits, isVisible c = true) {place : Int} :
    ∀ c ∈ scientific digits place, isVisible c = true := by
  unfold scientific
  simp only [List.forall_mem_append, List.forall_mem_cons]
  refine ⟨?_, rfl, visible_exponentText place⟩
  split
  · simp only [List.forall_mem_cons] at hdigits ⊢
    exact ⟨hdigits.1, rfl, hdigits.2⟩
  · exact hdigits

theorem visible_text (d : Decimal) : Visible d.text := by
  have hdigits : ∀ c ∈ d.significant, isVisible c = true := fun c => isVisible_of_mem_significant
  unfold text
  dsimp only
  split
  · exact visible_ofList.mpr (isVisible_of_mem_positional hdigits)
  · exact visible_ofList.mpr (isVisible_of_mem_scientific hdigits)

end Decimal

theorem Double.visible_text (x : Double) : Visible x.text := by
  cases x with
  | nan => exact visible_of_all rfl
  | infinite s => cases s <;> exact visible_of_all rfl
  | finite s m e =>
    have hbody : Visible (if m = 0 then "0.0" else (Decimal.shortest m e).text) := by
      split
      · exact visible_of_all rfl
      · exact Decimal.visible_text _
    cases s with
    | false => exact hbody
    | true => exact visible_append.mpr ⟨visible_of_all rfl, hbody⟩

/-- The text of a number shows as it is. -/
theorem Number.visible_text {v : Number} {text : String} (h : v.text? = some text) : Visible text := by
  cases v with
  | int n =>
    rw [text?, intText?] at h
    split at h
    · cases h
      exact visible_int n
    · cases h
  | double x =>
    cases h
    exact x.visible_text

/-! ### Names -/

/-- A lexeme that a source text can have. If it is a name, it shows as it is. -/
def Lexeme.Legible : Lexeme → Prop
  | .identifier name => Visible name
  | l => l.Written

theorem Scan.Writes.legible {w : List Char} {l : Lexeme} (h : Writes w l) : l.Legible := by
  have hwritten := h.written
  cases h with
  | openParen | closeParen | symbol | number => exact hwritten
  | @word c w hc hw =>
    rw [Lexeme.ofName] at hwritten ⊢
    split at hwritten
    · exact hwritten
    · refine visible_ofList.mpr (List.forall_mem_cons.mpr ⟨?_, fun d hd => isVisible_of_continuesName (hw d hd)⟩)
      exact isVisible_of_continuesName ((Scan.continuesName_iff c).mpr (.inl hc))

theorem legible_of_tokens {source : String} {ts : List Token} (h : Scan.tokens source = .ok ts) :
    ∀ t ∈ ts, t.lexeme.Legible :=
  (Scan.tokens_eq_ok_iff.mp h).forall_lexeme trivial fun _ _ => Scan.Writes.legible

namespace Text

/-! ### Lines -/

/-- No line ends inside the text. -/
def Unbroken (s : String) : Prop := ∀ c ∈ s.toList, isLineEnd c = false

@[simp] theorem unbroken_append {s t : String} : Unbroken (s ++ t) ↔ Unbroken s ∧ Unbroken t := by
  simp only [Unbroken, String.toList_append, List.forall_mem_append]

/-- A line ends at blanks only. -/
theorem isLineEnd_eq_false {c : Char} (h : isBlank c = false) : isLineEnd c = false := by
  simp only [isBlank, isLineEnd, Bool.or_eq_false_iff, Bool.and_eq_false_iff, decide_eq_false_iff_not,
    beq_eq_false_iff_ne] at h ⊢
  omega

theorem isLineEnd_of_isVisible {c : Char} (h : isVisible c = true) : isLineEnd c = false := by
  rw [isVisible_iff] at h
  simp only [isLineEnd, Bool.or_eq_false_iff, Bool.and_eq_false_iff, decide_eq_false_iff_not, beq_eq_false_iff_ne]
  omega

theorem Visible.unbroken {s : String} (h : Visible s) : Unbroken s := fun c hc => isLineEnd_of_isVisible (h c hc)

theorem linesFrom_cons {c : Char} (h : isLineEnd c = false) (opened rest : List Char) :
    linesFrom opened (c :: rest) = linesFrom (c :: opened) rest := by
  have hc : c ≠ '\r' := by
    rintro rfl
    cases h
  rw [linesFrom]
  · simp [h]
  · intro rest' hr
    exact absurd hr hc

/-- A line goes on as long as nothing ends it. -/
theorem linesFrom_append {cs : List Char} (h : ∀ c ∈ cs, isLineEnd c = false) (opened rest : List Char) :
    linesFrom opened (cs ++ rest) = linesFrom (cs.reverse ++ opened) rest := by
  induction cs generalizing opened with
  | nil => rfl
  | cons c cs ih =>
    obtain ⟨hc, hcs⟩ := List.forall_mem_cons.mp h
    rw [List.cons_append, linesFrom_cons hc, ih hcs, List.reverse_cons, List.append_assoc, List.singleton_append]

/-- Lines that are joined by line feeds are found again. -/
theorem lines_intercalate {parts : List String} (h : ∀ p ∈ parts, Unbroken p) (hne : ∀ p ∈ parts, p ≠ "") :
    lines ("\n".intercalate parts) = parts := by
  induction parts with
  | nil => rfl
  | cons p parts ih =>
    obtain ⟨hp, hparts⟩ := List.forall_mem_cons.mp h
    obtain ⟨hpne, hpartsne⟩ := List.forall_mem_cons.mp hne
    cases parts with
    | nil =>
      have hpne' : p.toList ≠ [] := by simpa using hpne
      rw [String.intercalate_singleton, lines, ← List.append_nil p.toList, linesFrom_append hp]
      simp [linesFrom, hpne']
    | cons q parts =>
      have hrest : lines ("\n".intercalate (p :: q :: parts)) = p :: lines ("\n".intercalate (q :: parts)) := by
        rw [String.intercalate_cons_cons, lines, String.toList_append, String.toList_append, List.append_assoc,
          linesFrom_append hp]
        show List.map String.ofList ((p.toList.reverse ++ []).reverse :: linesFrom [] _) = _
        rw [List.append_nil, List.reverse_reverse, List.map_cons, String.ofList_toList]
        rfl
      rw [hrest, ih hparts hpartsne]

/-! ### Plain text -/

/-- There is no escape character in the text. -/
def EscapeFree (s : String) : Prop := '\x1b' ∉ s.toList

theorem escapeFree_of_all {cs : List Char} (h : cs.all (· != '\x1b') = true) : EscapeFree (String.ofList cs) := by
  rw [EscapeFree, String.toList_ofList]
  intro hmem
  have hne := List.all_eq_true.mp h _ hmem
  cases hne

theorem Visible.escapeFree {s : String} (h : Visible s) : EscapeFree s := by
  intro hmem
  have hvisible := h _ hmem
  cases hvisible

@[simp] theorem escapeFree_append {s t : String} : EscapeFree (s ++ t) ↔ EscapeFree s ∧ EscapeFree t := by
  simp only [EscapeFree, String.toList_append, List.mem_append, not_or]

theorem escapeFree_intercalate {sep : String} {parts : List String} (hsep : EscapeFree sep)
    (h : ∀ p ∈ parts, EscapeFree p) : EscapeFree (sep.intercalate parts) := by
  induction parts with
  | nil => exact (visible_of_all rfl).escapeFree
  | cons p parts ih =>
    obtain ⟨hp, hparts⟩ := List.forall_mem_cons.mp h
    cases parts with
    | nil => rwa [String.intercalate_singleton]
    | cons q parts =>
      rw [String.intercalate_cons_cons]
      exact escapeFree_append.mpr ⟨escapeFree_append.mpr ⟨hp, hsep⟩, ih hparts⟩

/-! ### Quotations -/

/-- Each character of the text shows, or is one of the source text that is not blank. -/
def Quotes (source s : String) : Prop :=
  ∀ c ∈ s.toList, isVisible c = true ∨ (c ∈ source.toList ∧ isBlank c = false)

theorem Visible.quotes {s : String} (h : Visible s) (source : String) : Quotes source s := fun c hc => .inl (h c hc)

@[simp] theorem quotes_append {source s t : String} : Quotes source (s ++ t) ↔ Quotes source s ∧ Quotes source t := by
  simp only [Quotes, String.toList_append, List.forall_mem_append]

theorem Quotes.unbroken {source s : String} (h : Quotes source s) : Unbroken s := by
  intro c hc
  rcases h c hc with hvisible | ⟨-, hblank⟩
  · exact isLineEnd_of_isVisible hvisible
  · exact isLineEnd_eq_false hblank

theorem Quotes.escapeFree {source s : String} (h : Quotes source s) (hsource : EscapeFree source) : EscapeFree s := by
  intro hmem
  rcases h _ hmem with hvisible | ⟨hsource', -⟩
  · cases hvisible
  · exact hsource hsource'

end Text

end Abacus
