import Abacus.Proofs.Composition
import Mathlib.Data.List.Induction
import Mathlib.Data.Nat.Digits.Defs

/-!
# Where the tokens of a text stand

A token says where it starts and what it stands for, and nothing of how far it goes. Here
every token of a text gets its span, the stretch of the text that it was read from. The
spans cut the text up: they follow one another with no overlap, they hold every character
that is not blank and no other, each spells its token, and none of them could be longer.

What a span may spell is said once more, in the words of the language and not in those of
the scan: a list of operators with their spellings, the value of digits by their places,
and names that are none of the reserved words.
-/

namespace Abacus.Scan

/-! ### What a span spells -/

/-- `Spells w l`: the text `w` stands for the lexeme `l` in the language. -/
inductive Spells : List Char → Lexeme → Prop where
  /-- An opening parenthesis. -/
  | openParen : Spells ['('] .openParen
  /-- A closing parenthesis. -/
  | closeParen : Spells [')'] .closeParen
  /-- An operator, by its character or by its word. -/
  | operator {w : String} {op : Operator} : (w, op) ∈ Lexeme.spellings → Spells w.toList (.operator (.operator op))
  /-- Digits, with their value in base ten: the last one counts the units. -/
  | number {w : List Char} : w ≠ [] → (∀ d ∈ w, d.isDigit = true) →
      Spells w (.number (.int (Nat.ofDigits 10 (w.reverse.map Text.digitValue) : Nat)))
  /-- A name that is no reserved word. -/
  | identifier {c : Char} {w : List Char} : Lexeme.startsName c = true →
      (∀ d ∈ w, Lexeme.continuesName d = true) → String.ofList (c :: w) ≠ "mod" → String.ofList (c :: w) ≠ "div" →
      Spells (c :: w) (.identifier (String.ofList (c :: w)))

theorem natOfDigits_eq_ofDigits (w : List Char) :
    Text.natOfDigits w = Nat.ofDigits 10 (w.reverse.map Text.digitValue) := by
  induction w using List.reverseRecOn with
  | nil => rfl
  | append_singleton w c ih =>
    have hlast : Text.natOfDigits (w ++ [c]) = 10 * Text.natOfDigits w + Text.digitValue c := by
      simp [Text.natOfDigits]
    rw [hlast, ih, List.reverse_append, List.reverse_singleton, List.singleton_append, List.map_cons,
      Nat.ofDigits_cons, Nat.add_comm]

theorem mem_spellings_of_symbol {c : Char} {op : Operator} (h : Lexeme.ofSymbol? c = some op) :
    (String.singleton c, op) ∈ Lexeme.spellings := by
  unfold Lexeme.ofSymbol? at h
  split at h
  any_goals (cases h; decide)
  cases h

/-- What the scan takes for a spelling is one. -/
theorem Writes.spells {w : List Char} {l : Lexeme} (h : Writes w l) : Spells w l := by
  cases h with
  | openParen => exact .openParen
  | closeParen => exact .closeParen
  | symbol hs =>
    have := Spells.operator (mem_spellings_of_symbol hs)
    rwa [String.toList_singleton] at this
  | number hd =>
    rw [natOfDigits_eq_ofDigits]
    exact .number (List.cons_ne_nil _ _) hd
  | @word c w hc hw =>
    rw [Lexeme.ofName, Lexeme.ofWord?]
    by_cases hmod : String.ofList (c :: w) = "mod"
    · rw [if_pos hmod, ← String.toList_ofList (l := c :: w), hmod]
      exact .operator (by decide)
    by_cases hdiv : String.ofList (c :: w) = "div"
    · rw [if_neg hmod, if_pos hdiv, ← String.toList_ofList (l := c :: w), hdiv]
      exact .operator (by decide)
    · rw [if_neg hmod, if_neg hdiv]
      exact .identifier hc hw hmod hdiv

/-- The characters that are lexemes on their own. -/
def marks : List Char := ['(', ')', '+', '-', '*', '/', '%']

/-- The characters of a spelling. -/
theorem Writes.mem_alphabet {w : List Char} {l : Lexeme} (h : Writes w l) :
    ∀ d ∈ w, Lexeme.continuesName d = true ∨ d ∈ marks := by
  intro d hd
  cases h with
  | openParen | closeParen =>
    rw [List.mem_singleton.mp hd]
    simp [marks]
  | @symbol c op hs =>
    rw [List.mem_singleton.mp hd]
    unfold Lexeme.ofSymbol? at hs
    split at hs
    any_goals simp [marks]
    cases hs
  | number hdigits => exact .inl ((continuesName_iff d).mpr (.inr (hdigits d hd)))
  | @word c w hc hw =>
    rcases List.mem_cons.mp hd with rfl | hd
    · exact .inl ((continuesName_iff d).mpr (.inl hc))
    · exact .inl (hw d hd)

theorem isBlank_of_continuesName {c : Char} (h : Lexeme.continuesName c = true) : Text.isBlank c = false := by
  rw [continuesName_iff, startsName_iff, isDigit_iff] at h
  exact isBlank_eq_false (by omega)

/-- No character of a spelling is blank. -/
theorem Writes.forall_not_blank {w : List Char} {l : Lexeme} (h : Writes w l) :
    ∀ d ∈ w, Text.isBlank d = false := by
  intro d hd
  rcases h.mem_alphabet d hd with hname | hmark
  · exact isBlank_of_continuesName hname
  · simp only [marks, List.mem_cons, List.not_mem_nil, or_false] at hmark
    rcases hmark with rfl | rfl | rfl | rfl | rfl | rfl | rfl <;> rfl

/-! ### Spans -/

/-- A stretch of a text, never empty, and the lexeme that stands there. -/
structure Span where
  /-- The offset of its first character. -/
  start : Nat
  /-- The offset behind its last character. -/
  stop : Nat
  /-- What it stands for. -/
  lexeme : Lexeme
  /-- It holds a character. -/
  start_lt_stop : start < stop

namespace Span

/-- The token that was read from the span. -/
def token (a : Span) : Token := .ofLexeme a.lexeme a.start

/-- Does the span hold the character at the offset? -/
def Covers (a : Span) (i : Nat) : Prop := a.start ≤ i ∧ i < a.stop

/-- The characters of the span. -/
def text (a : Span) (s : List Char) : List Char := (s.drop a.start).take (a.stop - a.start)

end Span

/-- `Partition s n spans`: the spans cut up the text `s` from the offset `n` on. -/
structure Partition (s : List Char) (n : Nat) (spans : List Span) : Prop where
  /-- The spans stand in this part of the text. -/
  inside : ∀ a ∈ spans, n ≤ a.start ∧ a.stop ≤ s.length
  /-- Each span ends before the ones behind it start. -/
  ordered : spans.Pairwise fun a b => a.stop ≤ b.start
  /-- The characters in the spans are those that are not blank. -/
  covered : ∀ i c, n ≤ i → s[i]? = some c → ((∃ a ∈ spans, a.Covers i) ↔ Text.isBlank c = false)
  /-- Each span spells its lexeme. -/
  spelled : ∀ a ∈ spans, Spells (a.text s) a.lexeme
  /-- No digit follows a row of digits, and no letter, digit or underscore a word. -/
  maximal : ∀ a ∈ spans, ∀ c d, s[a.start]? = some c → s[a.stop]? = some d →
    (c.isDigit = true → d.isDigit = false) ∧ (Lexeme.startsName c = true → Lexeme.continuesName d = false)

namespace Partition

variable {s : List Char} {spans : List Span}

theorem of_length_le {n : Nat} (h : s.length ≤ n) : Partition s n [] where
  inside := by simp
  ordered := .nil
  covered i c hi hc := by
    have := (List.getElem?_eq_some_iff.mp hc).1
    omega
  spelled := by simp
  maximal := by simp

/-- A blank belongs to no span. -/
theorem blank {n : Nat} {c : Char} (h : Partition s (n + 1) spans) (hc : s[n]? = some c)
    (hb : Text.isBlank c = true) : Partition s n spans where
  inside a ha := ⟨Nat.le_of_succ_le (h.inside a ha).1, (h.inside a ha).2⟩
  ordered := h.ordered
  covered i d hi hd := by
    rcases Nat.eq_or_lt_of_le hi with rfl | hi
    · rw [hc] at hd
      cases hd
      refine iff_of_false ?_ (by simp [hb])
      rintro ⟨a, ha, hle, -⟩
      have := (h.inside a ha).1
      omega
    · exact h.covered i d hi hd
  spelled := h.spelled
  maximal := h.maximal

/-- One span more, right before the part that is cut up. -/
theorem cons {a : Span} (h : Partition s a.stop spans) (hstop : a.stop ≤ s.length)
    (hspells : Spells (a.text s) a.lexeme)
    (hblank : ∀ i c, a.Covers i → s[i]? = some c → Text.isBlank c = false)
    (hmax : ∀ c d, s[a.start]? = some c → s[a.stop]? = some d →
      (c.isDigit = true → d.isDigit = false) ∧ (Lexeme.startsName c = true → Lexeme.continuesName d = false)) :
    Partition s a.start (a :: spans) where
  inside := by
    refine List.forall_mem_cons.mpr ⟨⟨Nat.le_refl _, hstop⟩, fun b hb => ?_⟩
    have := h.inside b hb
    have := a.start_lt_stop
    omega
  ordered := List.pairwise_cons.mpr ⟨fun b hb => (h.inside b hb).1, h.ordered⟩
  covered i c hi hc := by
    rcases Nat.lt_or_ge i a.stop with hlt | hge
    · exact iff_of_true ⟨a, List.mem_cons_self .., hi, hlt⟩ (hblank i c ⟨hi, hlt⟩ hc)
    · rw [← h.covered i c hge hc]
      constructor
      · rintro ⟨b, hb, hcovers⟩
        rcases List.mem_cons.mp hb with rfl | hb
        · exact absurd hcovers.2 (Nat.not_lt.mpr hge)
        · exact ⟨b, hb, hcovers⟩
      · rintro ⟨b, hb, hcovers⟩
        exact ⟨b, List.mem_cons_of_mem a hb, hcovers⟩
  spelled := List.forall_mem_cons.mpr ⟨hspells, h.spelled⟩
  maximal := List.forall_mem_cons.mpr ⟨hmax, h.maximal⟩

end Partition

/-! ### The spans of a scan -/

section Reading

variable {s u rest : List Char} {n : Nat}

/-- The characters at the front of what is left of a text, by their offsets in the whole. -/
theorem getElem?_of_drop (h : s.drop n = u ++ rest) {i : Nat} (hi : i < u.length) : s[n + i]? = u[i]? := by
  rw [← List.getElem?_drop, h, List.getElem?_append_left hi]

theorem getElem?_of_drop_cons {c : Char} (h : s.drop n = c :: rest) : s[n]? = some c := by
  rw [← List.head?_drop, h, List.head?_cons]

theorem drop_of_drop (h : s.drop n = u ++ rest) : s.drop (n + u.length) = rest := by
  rw [← List.drop_drop, h, List.drop_left]

theorem getElem?_behind (h : s.drop n = u ++ rest) : s[n + u.length]? = rest.head? := by
  rw [← drop_of_drop h, List.head?_drop]

theorem length_of_drop (h : s.drop n = u ++ rest) (hne : u ≠ []) : n + u.length ≤ s.length := by
  have hlen := congrArg List.length h
  have := List.length_pos_iff.mpr hne
  simp only [List.length_drop, List.length_append] at hlen
  omega

end Reading

/-- The tokens that are found behind an offset cut up the text from there on. -/
theorem Scans.partition {s cs : List Char} {n : Nat} {ts : List Token} (h : Scans n cs ts) (hs : s.drop n = cs) :
    ∃ spans : List Span, ts.dropLast = spans.map Span.token ∧ Partition s n spans := by
  induction h with
  | stop => exact ⟨[], rfl, .of_length_le (List.drop_eq_nil_iff.mp hs)⟩
  | @blank n c cs ts hb _ ih =>
    obtain ⟨spans, hts, hpart⟩ := ih (drop_of_drop (u := [c]) hs)
    exact ⟨spans, hts, hpart.blank (getElem?_of_drop_cons hs) hb⟩
  | @lexeme n c w rest l ts hw hbound hscans ih =>
    obtain ⟨spans, hts, hpart⟩ := ih (drop_of_drop hs)
    let a : Span := ⟨n, n + (c :: w).length, l, by simp⟩
    refine ⟨a :: spans, ?_, Partition.cons (a := a) hpart ?_ ?_ ?_ ?_⟩
    · rw [List.dropLast_cons_of_ne_nil hscans.ne_nil, hts]
      rfl
    · exact length_of_drop hs (List.cons_ne_nil c w)
    · have htext : a.text s = c :: w := by
        rw [Span.text, hs, Nat.add_sub_cancel_left, List.take_left]
      rw [htext]
      exact hw.spells
    · rintro i d ⟨hle, hlt⟩ hd
      obtain ⟨k, rfl⟩ : ∃ k, i = n + k := Nat.exists_eq_add_of_le hle
      rw [getElem?_of_drop hs (Nat.lt_of_add_lt_add_left hlt)] at hd
      exact hw.forall_not_blank d (List.mem_of_getElem? hd)
    · intro c' d hc' hd
      obtain rfl : c' = c := Option.some.inj (hc'.symm.trans (getElem?_of_drop_cons hs))
      rw [getElem?_behind hs] at hd
      exact ⟨fun hdigit => (bounds_digit hdigit).mp hbound d hd, fun hname => (bounds_word hname).mp hbound d hd⟩

/-- **The tokens of a text cut it up.** If a text can be scanned, its tokens end with one end of
input, which stands behind the last character, and with no other. They stand in the order of
their positions, no two at the same one. And each of the others has a span: the spans cut up the
text. -/
theorem tokens_partition {source : String} {ts : List Token} (h : tokens source = .ok ts) :
    ts.getLast? = some (.ofLexeme .endOfInput source.length) ∧
    (∀ t ∈ ts.dropLast, t.isEnd = false) ∧
    ts.Pairwise (fun t u => t.position < u.position) ∧
    ∃ spans : List Span, ts.dropLast = spans.map Span.token ∧ Partition source.toList 0 spans := by
  have hscans := tokens_eq_ok_iff.mp h
  obtain ⟨hts, hbody⟩ := hscans.eq_concat
  rw [Nat.zero_add, String.length_toList] at hts
  obtain ⟨spans, hspans, hpart⟩ := hscans.partition (s := source.toList) rfl
  refine ⟨by rw [hts, List.getLast?_concat], hbody, ?_, spans, hspans, hpart⟩
  rw [hts, hspans, List.pairwise_append, List.pairwise_map]
  refine ⟨hpart.ordered.imp fun {a b} hab => ?_, List.pairwise_singleton .., ?_⟩
  · have := a.start_lt_stop
    simp only [Span.token, Token.ofLexeme]
    omega
  · intro t ht u hu
    obtain ⟨a, ha, rfl⟩ := List.mem_map.mp ht
    rw [List.mem_singleton.mp hu]
    have := a.start_lt_stop
    have hstop := (hpart.inside a ha).2
    rw [String.length_toList] at hstop
    simp only [Span.token, Token.ofLexeme]
    omega

/-- In `07mod div_2` and an end of line, one reserved word stands right behind a number, and the name
starts like the other. -/
theorem tokens_partition_reserved_words :
    ∃ spans : List Span, spans.map Span.token = [.ofLexeme (.number (.int 7)) 0,
      .ofLexeme (.operator (.operator .modulo)) 2, .ofLexeme (.identifier "div_2") 6] ∧
      Partition "07mod div_2\n".toList 0 spans := by
  have h : tokens "07mod div_2\n" = .ok [.ofLexeme (.number (.int 7)) 0, .ofLexeme (.operator (.operator .modulo)) 2,
      .ofLexeme (.identifier "div_2") 6, .ofLexeme .endOfInput 12] := by decide +kernel
  obtain ⟨-, -, -, spans, hspans, hpart⟩ := tokens_partition h
  exact ⟨spans, hspans.symm, hpart⟩

end Abacus.Scan
