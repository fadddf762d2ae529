import Abacus.Proofs.Outcome
import Abacus.Token.Scan

/-!
# What a scan finds

A scan cuts a text into blanks and lexemes, each lexeme as long as it can be. Here this
is said without a word on how the scan goes: `Writes` are the spellings of a lexeme,
`carriesOn` are the characters that a row of digits or of letters would still take, and
`Scans` are the ways to cut a text so that no lexeme could be longer. The scan finds such
a cut whenever it ends well, and there is no other.

A scanner that hands out one token at a time gives the same tokens and the same faults.
-/

namespace Abacus.Scan

/-! ### Spellings -/

/-- `Writes w l`: the text `w` is a spelling of the lexeme `l`. -/
inductive Writes : List Char → Lexeme → Prop where
  /-- An opening parenthesis. -/
  | openParen : Writes ['('] .openParen
  /-- A closing parenthesis. -/
  | closeParen : Writes [')'] .closeParen
  /-- A character that is an operator. -/
  | symbol {c : Char} {op : Operator} : Lexeme.ofSymbol? c = some op → Writes [c] (.operator (.operator op))
  /-- A row of digits within the limit, zeros at the front included. -/
  | number {c : Char} {w : List Char} : (∀ d ∈ c :: w, d.isDigit = true) →
      (c :: w).length ≤ Number.digitLimit → Writes (c :: w) (.number (.int (Text.natOfDigits (c :: w))))
  /-- A name or a reserved word. -/
  | word {c : Char} {w : List Char} : Lexeme.startsName c = true → (∀ d ∈ w, Lexeme.continuesName d = true) →
      Writes (c :: w) (Lexeme.ofName (String.ofList (c :: w)))

/-- Would a lexeme that starts with the character `first` take the character `d` too? -/
def carriesOn (first d : Char) : Bool :=
  if first.isDigit then d.isDigit else Lexeme.startsName first && Lexeme.continuesName d

/-- No character at the front of the text carries on a lexeme that starts with `first`. -/
def Bounds (first : Char) (rest : List Char) : Prop := ∀ d ∈ rest.head?, carriesOn first d = false

/-! ### Classes of characters -/

theorem isDigit_iff (c : Char) : c.isDigit = true ↔ 48 ≤ c.toNat ∧ c.toNat ≤ 57 := by
  simp [Char.isDigit, UInt32.le_iff_toNat_le]

theorem isAlpha_iff (c : Char) :
    c.isAlpha = true ↔ (65 ≤ c.toNat ∧ c.toNat ≤ 90) ∨ (97 ≤ c.toNat ∧ c.toNat ≤ 122) := by
  show (decide (c.val ≥ 'A'.val ∧ c.val ≤ 'Z'.val) || (decide (c.val ≥ 'a'.val) && decide (c.val ≤ 'z'.val))) = true ↔ _
  simp [UInt32.le_iff_toNat_le]

theorem startsName_iff (c : Char) :
    Lexeme.startsName c = true ↔
      (65 ≤ c.toNat ∧ c.toNat ≤ 90) ∨ (97 ≤ c.toNat ∧ c.toNat ≤ 122) ∨ c.toNat = 95 := by
  have h : c = '_' ↔ c.toNat = 95 := ⟨fun h => by rw [h]; rfl, fun h => Char.toNat_inj.mp h⟩
  rw [Lexeme.startsName, Bool.or_eq_true, isAlpha_iff, beq_iff_eq, h]
  omega

theorem continuesName_iff (c : Char) :
    Lexeme.continuesName c = true ↔ Lexeme.startsName c = true ∨ c.isDigit = true := by
  simp only [Lexeme.continuesName, Lexeme.startsName, Char.isAlphanum, Bool.or_eq_true]
  exact or_right_comm

theorem ofSymbol?_eq_some {c : Char} {op : Operator} (h : Lexeme.ofSymbol? c = some op) :
    c.toNat = 43 ∨ c.toNat = 45 ∨ c.toNat = 42 ∨ c.toNat = 47 ∨ c.toNat = 37 := by
  unfold Lexeme.ofSymbol? at h
  split at h
  any_goals decide
  cases h

theorem isBlank_eq_false {c : Char} (h : 33 ≤ c.toNat ∧ c.toNat ≤ 127) : Text.isBlank c = false := by
  simp only [Text.isBlank, Bool.or_eq_false_iff, Bool.and_eq_false_iff, decide_eq_false_iff_not, beq_eq_false_iff_ne]
  omega

/-- A letter, a digit or an underscore is no symbol, and no symbol is one of them. -/
theorem ofSymbol?_eq_none {c : Char} (h : Lexeme.continuesName c = true) : Lexeme.ofSymbol? c = none := by
  rw [continuesName_iff, startsName_iff, isDigit_iff] at h
  cases hop : Lexeme.ofSymbol? c with
  | none => rfl
  | some op => have := ofSymbol?_eq_some hop; omega

theorem startsName_eq_false {c : Char} (h : c.isDigit = true) : Lexeme.startsName c = false := by
  rw [Bool.eq_false_iff, Ne, startsName_iff]
  rw [isDigit_iff] at h
  omega

/-! ### Where a lexeme ends -/

theorem bounds_digit {c : Char} (h : c.isDigit = true) {rest : List Char} :
    Bounds c rest ↔ ∀ d ∈ rest.head?, d.isDigit = false := by
  simp only [Bounds, carriesOn, h, if_true]

theorem bounds_word {c : Char} (h : Lexeme.startsName c = true) {rest : List Char} :
    Bounds c rest ↔ ∀ d ∈ rest.head?, Lexeme.continuesName d = false := by
  have hd : c.isDigit ≠ true := fun hd => by rw [startsName_eq_false hd] at h; cases h
  simp [Bounds, carriesOn, hd, h]

/-- A single character that is no letter and no digit is a lexeme of its own. -/
theorem bounds_of_not_continuesName {c : Char} (h : Lexeme.continuesName c = false) (rest : List Char) :
    Bounds c rest := by
  rw [Bool.eq_false_iff, Ne, continuesName_iff, not_or] at h
  intro d _
  simp [carriesOn, h.1, h.2]

theorem bounds_symbol {c : Char} {op : Operator} (h : Lexeme.ofSymbol? c = some op) (rest : List Char) :
    Bounds c rest := by
  refine bounds_of_not_continuesName ?_ rest
  rw [Bool.eq_false_iff]
  intro hn
  rw [ofSymbol?_eq_none hn] at h
  cases h

/-! ### The front of a text -/

/-- What a row takes from the front of a text. -/
theorem takeWhile_append {p : Char → Bool} {w rest : List Char} (hw : ∀ d ∈ w, p d = true)
    (hrest : ∀ d ∈ rest.head?, p d = false) : (w ++ rest).takeWhile p = w := by
  rw [List.takeWhile_append_of_pos hw]
  cases rest with
  | nil => simp
  | cons d rest => simp [hrest d rfl]

/-- A row and what is left behind it. -/
theorem takeWhile_spec (p : Char → Bool) (cs : List Char) :
    ∃ rest, cs = cs.takeWhile p ++ rest ∧ (∀ d ∈ cs.takeWhile p, p d = true) ∧ ∀ d ∈ rest.head?, p d = false := by
  refine ⟨cs.dropWhile p, List.takeWhile_append_dropWhile.symm, fun d hd => ?_, fun d hd => ?_⟩
  · exact List.all_eq_true.mp List.all_takeWhile d hd
  · have := List.head?_dropWhile_not p cs
    rw [Option.mem_def.mp hd] at this
    exact this

theorem cut_symbol {c : Char} {op : Operator} (h : Lexeme.ofSymbol? c = some op) (cs : List Char) :
    cut c cs = ⟨0, .ok (.operator (.operator op))⟩ := by
  have ho : c ≠ '(' := by rintro rfl; cases h
  have hc : c ≠ ')' := by rintro rfl; cases h
  rw [cut, if_neg ho, if_neg hc, h]

theorem cut_digit {c : Char} (h : c.isDigit = true) (cs : List Char) :
    cut c cs = ⟨(cs.takeWhile Char.isDigit).length,
      if (cs.takeWhile Char.isDigit).length < Number.digitLimit then
        .ok (.number (.int (Text.natOfDigits (c :: cs.takeWhile Char.isDigit))))
      else .error .longNumber⟩ := by
  have ho : c ≠ '(' := by rintro rfl; cases h
  have hc : c ≠ ')' := by rintro rfl; cases h
  rw [cut, if_neg ho, if_neg hc, ofSymbol?_eq_none ((continuesName_iff c).mpr (.inr h))]
  simp only [h, if_true]
  split <;> rfl

theorem cut_word {c : Char} (h : Lexeme.startsName c = true) (cs : List Char) :
    cut c cs = ⟨(cs.takeWhile Lexeme.continuesName).length,
      .ok (Lexeme.ofName (String.ofList (c :: cs.takeWhile Lexeme.continuesName)))⟩ := by
  have ho : c ≠ '(' := by rintro rfl; cases h
  have hc : c ≠ ')' := by rintro rfl; cases h
  have hd : c.isDigit ≠ true := fun hd => by rw [startsName_eq_false hd] at h; cases h
  rw [cut, if_neg ho, if_neg hc, ofSymbol?_eq_none ((continuesName_iff c).mpr (.inl h))]
  simp [hd, h]

theorem cut_stray {c : Char} (ho : c ≠ '(') (hc : c ≠ ')') (hs : Lexeme.ofSymbol? c = none)
    (hn : Lexeme.continuesName c = false) (cs : List Char) : cut c cs = ⟨0, .error (.strayCharacter c)⟩ := by
  rw [Bool.eq_false_iff, Ne, continuesName_iff, not_or] at hn
  rw [cut, if_neg ho, if_neg hc, hs]
  simp [hn.1, hn.2]

/-- What is cut off the front of a text is spelled there, and could not be longer. -/
theorem writes_of_cut {c : Char} {cs : List Char} {l : Lexeme} (h : (cut c cs).lexeme = .ok l) :
    ∃ w rest, cs = w ++ rest ∧ w.length = (cut c cs).more ∧ Writes (c :: w) l ∧ Bounds c rest := by
  by_cases ho : c = '('
  · subst ho
    cases h
    exact ⟨[], cs, rfl, rfl, .openParen, fun d _ => rfl⟩
  by_cases hc : c = ')'
  · subst hc
    cases h
    exact ⟨[], cs, rfl, rfl, .closeParen, fun d _ => rfl⟩
  cases hs : Lexeme.ofSymbol? c with
  | some op =>
    rw [cut_symbol hs] at h ⊢
    cases h
    exact ⟨[], cs, rfl, rfl, .symbol hs, bounds_symbol hs cs⟩
  | none =>
    by_cases hn : Lexeme.continuesName c = true
    · rcases (continuesName_iff c).mp hn with hw | hd
      · obtain ⟨rest, hcs, hrow, hrest⟩ := takeWhile_spec Lexeme.continuesName cs
        rw [cut_word hw] at h ⊢
        cases h
        exact ⟨_, rest, hcs, rfl, .word hw hrow, (bounds_word hw).mpr hrest⟩
      · obtain ⟨rest, hcs, hrow, hrest⟩ := takeWhile_spec Char.isDigit cs
        rw [cut_digit hd] at h ⊢
        simp only at h
        split at h
        · rename_i hlen
          cases h
          refine ⟨_, rest, hcs, rfl, .number ?_ hlen, (bounds_digit hd).mpr hrest⟩
          rintro d (_ | ⟨_, hmem⟩)
          · exact hd
          · exact hrow d hmem
        · cases h
    · rw [cut_stray ho hc hs (Bool.eq_false_iff.mpr hn)] at h
      cases h

/-- A spelling at the front of a text is cut off it, when nothing behind it carries it on. -/
theorem cut_of_writes {c : Char} {w rest : List Char} {l : Lexeme} (h : Writes (c :: w) l)
    (hb : Bounds c rest) : cut c (w ++ rest) = ⟨w.length, .ok l⟩ := by
  cases h with
  | openParen | closeParen => rfl
  | symbol hs => exact cut_symbol hs _
  | number hd hlen =>
    have hc := hd c (List.mem_cons_self ..)
    have hrow : (w ++ rest).takeWhile Char.isDigit = w :=
      takeWhile_append (fun d hmem => hd d (List.mem_cons_of_mem _ hmem)) ((bounds_digit hc).mp hb)
    rw [cut_digit hc, hrow, if_pos (show w.length < _ from hlen)]
  | word hc hw => rw [cut_word hc, takeWhile_append hw ((bounds_word hc).mp hb)]

/-- No spelling starts with a blank. -/
theorem Writes.not_blank {c : Char} {w : List Char} {l : Lexeme} (h : Writes (c :: w) l) :
    Text.isBlank c = false := by
  apply isBlank_eq_false
  cases h with
  | openParen | closeParen => decide
  | symbol hs => have := ofSymbol?_eq_some hs; omega
  | number hd => have := (isDigit_iff c).mp (hd c (List.mem_cons_self ..)); omega
  | word hc => have := (startsName_iff c).mp hc; omega

/-! ### Whole texts -/

/-- `Scans n cs ts`: the text `cs`, which starts at the offset `n`, is cut into the tokens
`ts`, with blanks between them and no token that could be longer. -/
inductive Scans : Nat → List Char → List Token → Prop where
  /-- The end of the text. -/
  | stop {n : Nat} : Scans n [] [.ofLexeme .endOfInput n]
  /-- A blank. -/
  | blank {n : Nat} {c : Char} {cs : List Char} {ts : List Token} : Text.isBlank c = true →
      Scans (n + 1) cs ts → Scans n (c :: cs) ts
  /-- A lexeme, and a text that does not carry it on. -/
  | lexeme {n : Nat} {c : Char} {w rest : List Char} {l : Lexeme} {ts : List Token} : Writes (c :: w) l →
      Bounds c rest → Scans (n + (c :: w).length) rest ts →
      Scans n (c :: w ++ rest) (.ofLexeme l n :: ts)

theorem tokensFrom_length (n : Nat) (w rest : List Char) :
    tokensFrom w.length n (w ++ rest) = tokensFrom 0 (n + w.length) rest := by
  induction w generalizing n with
  | nil => rfl
  | cons c w ih =>
    rw [List.cons_append, List.length_cons, tokensFrom, ih]
    congr 1
    omega

theorem tokensFrom_blanks (n : Nat) {w : List Char} (hw : ∀ d ∈ w, Text.isBlank d = true) (rest : List Char) :
    tokensFrom 0 n (w ++ rest) = tokensFrom 0 (n + w.length) rest := by
  induction w generalizing n with
  | nil => rfl
  | cons c w ih =>
    obtain ⟨hc, hw⟩ := List.forall_mem_cons.mp hw
    rw [List.cons_append, tokensFrom, hc, if_pos rfl, ih (n + 1) hw, List.length_cons]
    congr 1
    omega

theorem tokensFrom_cons {c : Char} (h : Text.isBlank c = false) (n : Nat) (cs : List Char) :
    tokensFrom 0 n (c :: cs) =
      match (cut c cs).lexeme with
      | .error cause => .error ⟨cause, n⟩
      | .ok l => do return .ofLexeme l n :: (← tokensFrom (cut c cs).more (n + 1) cs) := by
  rw [tokensFrom, h]
  rfl

/-- What a scan does at a character that is no blank: it stops there, or takes a lexeme and goes on
behind it. -/
theorem tokensFrom_step {c : Char} (h : Text.isBlank c = false) (n : Nat) (cs : List Char) :
    (∃ cause, (cut c cs).lexeme = .error cause ∧ tokensFrom 0 n (c :: cs) = .error ⟨cause, n⟩) ∨
      ∃ w rest l, cs = w ++ rest ∧ Writes (c :: w) l ∧ Bounds c rest ∧
        tokensFrom 0 n (c :: cs) = do return .ofLexeme l n :: (← tokensFrom 0 (n + (c :: w).length) rest) := by
  rw [tokensFrom_cons h]
  cases hl : (cut c cs).lexeme with
  | error cause => exact .inl ⟨cause, rfl, rfl⟩
  | ok l =>
    obtain ⟨w, rest, rfl, hmore, hw, hbound⟩ := writes_of_cut hl
    refine .inr ⟨w, rest, l, rfl, hw, hbound, ?_⟩
    simp only [← hmore, tokensFrom_length]
    rw [List.length_cons, Nat.add_assoc, Nat.add_comm 1]

/-- The tokens that a scan gives are a cut of the text. -/
theorem scans_of_tokensFrom {n : Nat} {cs : List Char} {ts : List Token} (h : tokensFrom 0 n cs = .ok ts) :
    Scans n cs ts := by
  -- a lexeme takes several characters at once, so the induction is on the length of the text
  induction hlen : cs.length using Nat.strongRecOn generalizing n cs ts with
  | ind k ih =>
    cases cs with
    | nil => cases h; exact .stop
    | cons c cs =>
      rw [List.length_cons] at hlen
      cases hb : Text.isBlank c with
      | true =>
        rw [tokensFrom, hb] at h
        exact .blank hb (ih cs.length (by omega) h rfl)
      | false =>
        obtain ⟨cause, -, hstep⟩ | ⟨w, rest, l, rfl, hw, hbound, hstep⟩ := tokensFrom_step hb n cs
        · rw [hstep] at h
          cases h
        · rw [hstep] at h
          obtain ⟨ts', hts', h⟩ := Except.bind_eq_ok_iff.mp h
          cases h
          rw [List.length_append] at hlen
          exact .lexeme hw hbound (ih rest.length (by omega) hts' rfl)

/-- A scan finds every cut of a text. -/
theorem tokensFrom_of_scans {n : Nat} {cs : List Char} {ts : List Token} (h : Scans n cs ts) :
    tokensFrom 0 n cs = .ok ts := by
  induction h with
  | stop => rfl
  | blank hb _ ih => rw [tokensFrom, hb]; exact ih
  | @lexeme n c w rest l ts hw hbound _ ih =>
    rw [List.cons_append, tokensFrom_cons hw.not_blank, cut_of_writes hw hbound]
    simp only [tokensFrom_length]
    rw [show n + 1 + w.length = n + (c :: w).length by simp; omega, ih]
    rfl

/-- A scan ends well exactly when the text can be cut, and gives that cut. -/
theorem tokens_eq_ok_iff {source : String} {ts : List Token} :
    tokens source = .ok ts ↔ Scans 0 source.toList ts :=
  ⟨scans_of_tokensFrom, tokensFrom_of_scans⟩

/-- What holds of all that can be spelled, and of the end of input, holds of the tokens of a text. -/
theorem Scans.forall_lexeme {P : Lexeme → Prop} (hend : P .endOfInput) (hwrites : ∀ w l, Writes w l → P l)
    {n : Nat} {cs : List Char} {ts : List Token} (h : Scans n cs ts) : ∀ t ∈ ts, P t.lexeme := by
  induction h with
  | stop =>
    intro t ht
    rw [List.mem_singleton.mp ht]
    exact hend
  | blank _ _ ih => exact ih
  | lexeme hw _ _ ih =>
    intro t ht
    rcases List.mem_cons.mp ht with rfl | ht
    · exact hwrites _ _ hw
    · exact ih t ht

end Abacus.Scan

/-! ### Token by token -/

namespace Abacus.Scanner

/-- `Gives s result`: the scanner hands out the tokens of `result` one after the other until its stream ends,
or comes to that fault. -/
inductive Gives : Scanner → Except Scan.Fault (List Token) → Prop where
  /-- The stream has ended. -/
  | ended {s s' : Scanner} : s.next = (.ok none, s') → Gives s (.ok [])
  /-- A fault. -/
  | fault {s s' : Scanner} {fault : Scan.Fault} : s.next = (.error fault, s') → Gives s (.error fault)
  /-- A token, and what the scanner gives behind it. -/
  | token {s s' : Scanner} {t : Token} {result : Except Scan.Fault (List Token)} : s.next = (.ok (some t), s') →
      Gives s' result → Gives s (do return t :: (← result))

theorem Gives.unique {s : Scanner} {result result' : Except Scan.Fault (List Token)} (h : s.Gives result)
    (h' : s.Gives result') : result = result' := by
  induction h generalizing result' with
  | ended hnext | fault hnext =>
    cases h' with
    | ended hnext' | fault hnext' | token hnext' =>
      have heq := hnext.symm.trans hnext'
      cases heq <;> rfl
  | token hnext _ ih =>
    cases h' with
    | ended hnext' | fault hnext' => simp [hnext] at hnext'
    | token hnext' hrest =>
      rw [hnext] at hnext'
      cases hnext'
      rw [ih hrest]

section Next

variable {s : Scanner} {w : List Char} (hw : ∀ d ∈ w, Text.isBlank d = true)

include hw

theorem next_end (hdrop : s.source.toList.drop s.offset = w) :
    s.stream.next = (.ok (some (.ofLexeme .endOfInput (s.offset + w.length : Nat))),
      ⟨s.source, s.offset + w.length, false⟩) := by
  have hrow : (w ++ []).takeWhile Text.isBlank = w := Scan.takeWhile_append hw (by simp)
  rw [List.append_nil] at hrow
  simp only [next, stream, if_true, hdrop, hrow, List.drop_length]

variable {c : Char} {cs : List Char} (hc : Text.isBlank c = false)
  (hdrop : s.source.toList.drop s.offset = w ++ c :: cs)

include hc hdrop

theorem next_fault {cause : Scan.Cause} (hcut : (Scan.cut c cs).lexeme = .error cause) :
    s.stream.next = (.error ⟨cause, s.offset + w.length⟩,
      ⟨s.source, s.offset + w.length + 1 + (Scan.cut c cs).more, false⟩) := by
  have hrow : (w ++ c :: cs).takeWhile Text.isBlank = w := Scan.takeWhile_append hw (by simpa using hc)
  simp only [next, stream, if_true, hdrop, hrow, List.drop_left, hcut]

theorem next_token {l : Lexeme} (hcut : (Scan.cut c cs).lexeme = .ok l) :
    s.stream.next = (.ok (some (.ofLexeme l (s.offset + w.length : Nat))),
      ⟨s.source, s.offset + w.length + 1 + (Scan.cut c cs).more, true⟩) := by
  have hrow : (w ++ c :: cs).takeWhile Text.isBlank = w := Scan.takeWhile_append hw (by simpa using hc)
  simp only [next, stream, if_true, hdrop, hrow, List.drop_left, hcut]

end Next

/-- A new stream gives what a scan of the rest of the text gives. -/
theorem gives_stream (s : Scanner) :
    s.stream.Gives (Scan.tokensFrom 0 s.offset (s.source.toList.drop s.offset)) := by
  -- every token but the last takes a character, so the induction is on what is left of the text
  induction hlen : (s.source.toList.drop s.offset).length using Nat.strongRecOn generalizing s with
  | ind k ih =>
    obtain ⟨rest, hdrop, hw, hrest⟩ := Scan.takeWhile_spec Text.isBlank (s.source.toList.drop s.offset)
    generalize (s.source.toList.drop s.offset).takeWhile Text.isBlank = w at hdrop hw
    cases rest with
    | nil =>
      rw [List.append_nil] at hdrop
      rw [← List.append_nil (List.drop s.offset s.source.toList), hdrop, Scan.tokensFrom_blanks s.offset hw]
      exact .token (next_end hw hdrop) (.ended rfl)
    | cons c cs =>
      have hc : Text.isBlank c = false := hrest c rfl
      rw [hdrop, Scan.tokensFrom_blanks s.offset hw]
      obtain ⟨cause, hcut, hstep⟩ | ⟨v, rest, l, rfl, hwrites, hbounds, hstep⟩ :=
        Scan.tokensFrom_step hc (s.offset + w.length) cs
      · rw [hstep]
        exact .fault (next_fault hw hc hdrop hcut)
      · have hcut := Scan.cut_of_writes hwrites hbounds
        have hnext := next_token hw hc hdrop (l := l) (by rw [hcut])
        rw [hcut] at hnext
        rw [hstep]
        refine .token hnext ?_
        have hbehind : s.source.toList.drop (s.offset + w.length + 1 + v.length) = rest := by
          rw [Nat.add_assoc, Nat.add_assoc, ← List.drop_drop, hdrop]
          simp [← List.drop_drop, Nat.add_comm 1]
        have hshort : rest.length < k := by
          rw [← hlen, hdrop]
          simp only [List.length_append, List.length_cons]
          omega
        have hgives := ih rest.length hshort ⟨s.source, s.offset + w.length + 1 + v.length, true⟩ (by rw [hbehind])
        rw [hbehind] at hgives
        rwa [List.length_cons, Nat.add_comm v.length 1, ← Nat.add_assoc]

/-- **Token by token or all at once.** The tokens that a scanner hands out one after the other from the start of
a text are the tokens of the text, and it comes to a fault exactly if the text has no tokens, and then to the
same. -/
theorem gives_iff {source : String} {result : Except Scan.Fault (List Token)} :
    (ofSource source).stream.Gives result ↔ result = Scan.tokens source := by
  have hgives : (ofSource source).stream.Gives (Scan.tokens source) := gives_stream (ofSource source)
  constructor
  · exact fun h => h.unique hgives
  · rintro rfl
    exact hgives

end Abacus.Scanner
