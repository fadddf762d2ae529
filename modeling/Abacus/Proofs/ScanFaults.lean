import Abacus.Proofs.Spans
import Mathlib.Order.Bounds.Defs

/-!
# Where a scan stops

A scan has two reasons to stop: a character that is in no lexeme and is no blank, and a number
with too many digits. Both can be told from the text alone, offset by offset. A character is
stray wherever it stands. Digits are a number only where a row of letters, digits and
underscores starts with them, for inside a name, or behind one, they belong to the name. So a
text is at fault at the offsets of its stray characters, and at the start of each row with too
many digits in front. A scan stops exactly if there is such an offset, and it stops at the first
one.
-/

namespace Abacus.Scan

/-! ### Offsets at fault -/

/-- The character is no blank, no letter, no digit, no underscore, no parenthesis and no operator. -/
def Stray (c : Char) : Prop := Text.isBlank c = false ∧ Lexeme.continuesName c = false ∧ c ∉ marks

/-- At the offset stands a stray character. -/
def BadAt (s : List Char) (i : Nat) : Prop := ∃ c, s[i]? = some c ∧ Stray c

/-- At the offset starts a row of letters, digits and underscores, with none of them before it. -/
def RowAt (s : List Char) (i : Nat) : Prop :=
  (∃ c, s[i]? = some c ∧ Lexeme.continuesName c = true) ∧
    ∀ j c, i = j + 1 → s[j]? = some c → Lexeme.continuesName c = false

/-- At the offset starts a row that has more digits in front than the limit. -/
def OversizedAt (s : List Char) (i : Nat) : Prop :=
  RowAt s i ∧ ∀ j ≤ Number.digitLimit, ∃ d, s[i + j]? = some d ∧ d.isDigit = true

/-- The text is at fault at the offset. -/
def FaultyAt (s : List Char) (i : Nat) : Prop := BadAt s i ∨ OversizedAt s i

/-- What the fault says is so. -/
def Fault.Occurs (s : List Char) (fault : Fault) : Prop :=
  match fault.cause with
  | .strayCharacter c => s[fault.offset]? = some c ∧ Stray c
  | .longNumber => OversizedAt s fault.offset

theorem Fault.Occurs.faultyAt {s : List Char} {fault : Fault} (h : fault.Occurs s) : FaultyAt s fault.offset := by
  obtain ⟨cause, i⟩ := fault
  cases cause with
  | strayCharacter c => exact .inl ⟨c, h⟩
  | longNumber => exact .inr h

theorem BadAt.not_rowAt {s : List Char} {i : Nat} (h : BadAt s i) : ¬ RowAt s i := by
  rintro ⟨⟨d, hd, hname⟩, -⟩
  obtain ⟨c, hc, -, hstray, -⟩ := h
  obtain rfl : c = d := Option.some.inj (hc.symm.trans hd)
  simp [hstray] at hname

theorem FaultyAt.lt_length {s : List Char} {i : Nat} (h : FaultyAt s i) : i < s.length := by
  obtain ⟨c, hc, -⟩ | ⟨⟨⟨c, hc, -⟩, -⟩, -⟩ := h
  · exact (List.getElem?_eq_some_iff.mp hc).1
  · exact (List.getElem?_eq_some_iff.mp hc).1

/-- Two faults that occur at one offset are the same. -/
theorem Fault.Occurs.unique {s : List Char} {f g : Fault} (hf : f.Occurs s) (hg : g.Occurs s)
    (h : f.offset = g.offset) : f = g := by
  obtain ⟨cause, i⟩ := f
  obtain ⟨cause', j⟩ := g
  obtain rfl : i = j := h
  cases cause with
  | strayCharacter c =>
    cases cause' with
    | strayCharacter d =>
      obtain rfl : c = d := Option.some.inj (hf.1.symm.trans hg.1)
      rfl
    | longNumber => exact absurd hg.1 (BadAt.not_rowAt ⟨c, hf⟩)
  | longNumber =>
    cases cause' with
    | strayCharacter d => exact absurd hf.1 (BadAt.not_rowAt ⟨d, hg⟩)
    | longNumber => rfl

/-! ### A scan that stops -/

/-- `Stops n cs fault`: the text `cs`, which starts at the offset `n`, is cut into blanks and
lexemes as far as the fault. -/
inductive Stops : Nat → List Char → Fault → Prop where
  /-- A stray character. -/
  | stray {n : Nat} {c : Char} {cs : List Char} : Stray c → Stops n (c :: cs) ⟨.strayCharacter c, n⟩
  /-- A number with too many digits. -/
  | long {n : Nat} {w rest : List Char} : (∀ d ∈ w, d.isDigit = true) → Number.digitLimit < w.length →
      Stops n (w ++ rest) ⟨.longNumber, n⟩
  /-- A blank before the fault. -/
  | blank {n : Nat} {c : Char} {cs : List Char} {fault : Fault} : Text.isBlank c = true →
      Stops (n + 1) cs fault → Stops n (c :: cs) fault
  /-- A lexeme before the fault. -/
  | lexeme {n : Nat} {c : Char} {w rest : List Char} {l : Lexeme} {fault : Fault} : Writes (c :: w) l →
      Bounds c rest → Stops (n + (c :: w).length) rest fault → Stops n (c :: w ++ rest) fault

theorem ofSymbol?_eq_none_iff (c : Char) : Lexeme.ofSymbol? c = none ↔ c ∉ ['+', '-', '*', '/', '%'] := by
  unfold Lexeme.ofSymbol?
  split
  any_goals simp
  simp_all

/-- What no lexeme can be cut off from: a stray character, or too many digits. -/
theorem cut_eq_error {c : Char} {cs : List Char} {cause : Cause} (hb : Text.isBlank c = false)
    (h : (cut c cs).lexeme = .error cause) :
    (Stray c ∧ cause = .strayCharacter c) ∨
      (cause = .longNumber ∧ ∃ w rest, c :: cs = w ++ rest ∧ (∀ d ∈ w, d.isDigit = true) ∧
        Number.digitLimit < w.length) := by
  by_cases ho : c = '('
  · subst ho
    cases h
  by_cases hc : c = ')'
  · subst hc
    cases h
  cases hs : Lexeme.ofSymbol? c with
  | some op =>
    rw [cut_symbol hs] at h
    cases h
  | none =>
    by_cases hn : Lexeme.continuesName c = true
    · rcases (continuesName_iff c).mp hn with hw | hd
      · rw [cut_word hw] at h
        cases h
      · rw [cut_digit hd] at h
        simp only at h
        split at h
        · cases h
        · rename_i hlen
          cases h
          obtain ⟨rest, hcs, hrow, -⟩ := takeWhile_spec Char.isDigit cs
          refine .inr ⟨rfl, c :: cs.takeWhile Char.isDigit, rest, by rw [List.cons_append, ← hcs], ?_, ?_⟩
          · exact List.forall_mem_cons.mpr ⟨hd, hrow⟩
          · rw [List.length_cons]
            omega
    · have hn : Lexeme.continuesName c = false := Bool.eq_false_iff.mpr hn
      rw [cut_stray ho hc hs hn] at h
      cases h
      have hsymbol := (ofSymbol?_eq_none_iff c).mp hs
      refine .inl ⟨⟨hb, hn, ?_⟩, rfl⟩
      simp only [marks, List.mem_cons, not_or] at hsymbol ⊢
      exact ⟨ho, hc, hsymbol⟩

theorem stops_of_tokensFrom {n : Nat} {cs : List Char} {fault : Fault} (h : tokensFrom 0 n cs = .error fault) :
    Stops n cs fault := by
  induction hlen : cs.length using Nat.strongRecOn generalizing n cs with
  | ind k ih =>
    cases cs with
    | nil => cases h
    | cons c cs =>
      rw [List.length_cons] at hlen
      cases hb : Text.isBlank c with
      | true =>
        rw [tokensFrom, hb] at h
        exact .blank hb (ih cs.length (by omega) h rfl)
      | false =>
        obtain ⟨cause, hl, hstep⟩ | ⟨w, rest, l, rfl, hw, hbound, hstep⟩ := tokensFrom_step hb n cs
        · rw [hstep] at h
          cases h
          obtain ⟨hstray, rfl⟩ | ⟨rfl, w, rest, hcs, hdigits, hlong⟩ := cut_eq_error hb hl
          · exact .stray hstray
          · rw [hcs]
            exact .long hdigits hlong
        · rw [hstep] at h
          obtain h | ⟨ts, -, h⟩ := Except.bind_eq_error_iff.mp h
          · rw [List.length_append] at hlen
            exact .lexeme hw hbound (ih rest.length (by omega) h rfl)
          · cases h

/-! ### What is not at fault -/

theorem Writes.not_stray {w : List Char} {l : Lexeme} (h : Writes w l) : ∀ d ∈ w, ¬ Stray d := by
  rintro d hd ⟨-, hname, hmark⟩
  rcases h.mem_alphabet d hd with hname' | hmark'
  · simp [hname'] at hname
  · exact hmark hmark'

/-- A spelling of several characters is a row of letters, digits and underscores. -/
theorem Writes.continuesName {c : Char} {w : List Char} {l : Lexeme} (h : Writes (c :: w) l) (hne : w ≠ []) :
    ∀ d ∈ c :: w, Lexeme.continuesName d = true := by
  cases h with
  | openParen | closeParen | symbol => exact absurd rfl hne
  | number hdigits => exact fun d hd => (continuesName_iff d).mpr (.inr (hdigits d hd))
  | word hc hw => exact List.forall_mem_cons.mpr ⟨(continuesName_iff c).mpr (.inl hc), hw⟩

/-- A spelling that starts with a digit is a number within the limit. -/
theorem Writes.length_le_of_isDigit {c : Char} {w : List Char} {l : Lexeme} (h : Writes (c :: w) l)
    (hc : c.isDigit = true) : (c :: w).length ≤ Number.digitLimit := by
  cases h with
  | openParen | closeParen => cases hc
  | symbol hs => simp [ofSymbol?_eq_none ((continuesName_iff c).mpr (.inr hc))] at hs
  | number _ hlen => exact hlen
  | word hname => simp [startsName_eq_false hc] at hname

section Text

variable {s : List Char} {n : Nat}

theorem not_faultyAt_of_blank {c : Char} (hc : s[n]? = some c) (hb : Text.isBlank c = true) : ¬ FaultyAt s n := by
  rintro (⟨d, hd, hstray, -⟩ | ⟨⟨⟨d, hd, hname⟩, -⟩, -⟩)
  · obtain rfl : c = d := Option.some.inj (hc.symm.trans hd)
    simp [hb] at hstray
  · obtain rfl : c = d := Option.some.inj (hc.symm.trans hd)
    simp [isBlank_of_continuesName hname] at hb

/-- The text is not at fault where a lexeme stands. -/
theorem not_faultyAt_of_lexeme {c : Char} {w rest : List Char} {l : Lexeme} (hs : s.drop n = c :: w ++ rest)
    (hw : Writes (c :: w) l) (hbound : Bounds c rest) {k : Nat} (hk : k < (c :: w).length) : ¬ FaultyAt s (n + k) := by
  rintro (⟨d, hd, hstray⟩ | ⟨⟨-, hbefore⟩, hdigits⟩)
  · rw [getElem?_of_drop hs hk] at hd
    exact hw.not_stray d (List.mem_of_getElem? hd) hstray
  cases k with
  | zero =>
    -- a number within the limit, and the text behind it would have to carry it on
    obtain ⟨d, hd, hdigit⟩ := hdigits 0 (Nat.zero_le _)
    rw [getElem?_of_drop hs (Nat.succ_pos _)] at hd
    cases hd
    obtain ⟨d, hd, hdigit'⟩ := hdigits _ (hw.length_le_of_isDigit hdigit)
    rw [Nat.add_zero, getElem?_behind hs] at hd
    have := (bounds_digit hdigit).mp hbound d hd
    simp [hdigit'] at this
  | succ k =>
    -- inside a row: the character before belongs to it
    have hne : w ≠ [] := by
      rintro rfl
      simp at hk
    have hk' : k < (c :: w).length := Nat.lt_of_succ_lt hk
    have := hbefore (n + k) (c :: w)[k] rfl (by rw [getElem?_of_drop hs hk', List.getElem?_eq_getElem hk'])
    simp [hw.continuesName hne _ (List.getElem_mem hk')] at this

/-- No digit at the offset carries on a row of letters, digits and underscores. -/
def Fresh (s : List Char) (n : Nat) : Prop :=
  ∀ j c d, n = j + 1 → s[j]? = some c → s[n]? = some d → d.isDigit = true → Lexeme.continuesName c = false

theorem fresh_of_blank {c : Char} (hc : s[n]? = some c) (hb : Text.isBlank c = true) : Fresh s (n + 1) := by
  rintro j c' d hj hc' - -
  obtain rfl : n = j := by omega
  obtain rfl : c = c' := Option.some.inj (hc.symm.trans hc')
  rw [Bool.eq_false_iff]
  intro hname
  simp [isBlank_of_continuesName hname] at hb

theorem fresh_of_lexeme {c : Char} {w rest : List Char} {l : Lexeme} (hs : s.drop n = c :: w ++ rest)
    (hw : Writes (c :: w) l) (hbound : Bounds c rest) : Fresh s (n + (c :: w).length) := by
  intro j d e hj hd he hdigit
  obtain rfl : j = n + w.length := by
    rw [List.length_cons] at hj
    omega
  rw [getElem?_of_drop hs (by simp)] at hd
  rw [getElem?_behind hs] at he
  cases hw with
  | openParen | closeParen =>
    cases hd
    rfl
  | symbol hsymbol =>
    cases hd
    rw [Bool.eq_false_iff]
    intro hname
    simp [ofSymbol?_eq_none hname] at hsymbol
  | number hdigits =>
    have := (bounds_digit (hdigits c (List.mem_cons_self ..))).mp hbound e he
    simp [hdigit] at this
  | word hc =>
    have := (bounds_word hc).mp hbound e he
    simp [(continuesName_iff e).mpr (.inr hdigit)] at this

end Text

/-! ### The first fault -/

/-- A text that is cut up is nowhere at fault. -/
theorem Scans.not_faultyAt {s cs : List Char} {n : Nat} {ts : List Token} (h : Scans n cs ts) (hs : s.drop n = cs) :
    ∀ i, n ≤ i → ¬ FaultyAt s i := by
  induction h with
  | stop =>
    intro i hi hfaulty
    have := hfaulty.lt_length
    have := List.drop_eq_nil_iff.mp hs
    omega
  | @blank n c cs ts hb _ ih =>
    intro i hi
    rcases Nat.eq_or_lt_of_le hi with rfl | hi
    · exact not_faultyAt_of_blank (getElem?_of_drop_cons hs) hb
    · exact ih (drop_of_drop (u := [c]) hs) i hi
  | @lexeme n c w rest l ts hw hbound _ ih =>
    intro i hi
    rcases Nat.lt_or_ge i (n + (c :: w).length) with hlt | hge
    · obtain ⟨k, rfl⟩ := Nat.exists_eq_add_of_le hi
      exact not_faultyAt_of_lexeme hs hw hbound (by omega)
    · exact ih (drop_of_drop hs) i hge

/-- A scan stops at a fault that is there, with none before it. -/
theorem Stops.first {s cs : List Char} {n : Nat} {fault : Fault} (h : Stops n cs fault) (hs : s.drop n = cs)
    (hfresh : Fresh s n) :
    n ≤ fault.offset ∧ fault.Occurs s ∧ ∀ i, n ≤ i → i < fault.offset → ¬ FaultyAt s i := by
  induction h with
  | @stray n c cs hstray =>
    exact ⟨Nat.le_refl n, ⟨getElem?_of_drop_cons hs, hstray⟩, fun i hi hlt => absurd hi (Nat.not_le.mpr hlt)⟩
  | @long n w rest hdigits hlong =>
    refine ⟨Nat.le_refl n, ?_, fun i hi hlt => absurd hi (Nat.not_le.mpr hlt)⟩
    have hall : ∀ j ≤ Number.digitLimit, ∃ d, s[n + j]? = some d ∧ d.isDigit = true := by
      intro j hj
      have hjw : j < w.length := by omega
      refine ⟨w[j], ?_, hdigits _ (List.getElem_mem hjw)⟩
      rw [getElem?_of_drop hs hjw, List.getElem?_eq_getElem hjw]
    obtain ⟨d, hd, hdigit⟩ := hall 0 (Nat.zero_le _)
    exact ⟨⟨⟨d, hd, (continuesName_iff d).mpr (.inr hdigit)⟩, fun j c hj hc => hfresh j c d hj hc hd hdigit⟩, hall⟩
  | @blank n c cs fault hb _ ih =>
    have hc := getElem?_of_drop_cons hs
    obtain ⟨hle, hoccurs, hclear⟩ := ih (drop_of_drop (u := [c]) hs) (fresh_of_blank hc hb)
    refine ⟨by omega, hoccurs, fun i hi hlt => ?_⟩
    rcases Nat.eq_or_lt_of_le hi with rfl | hi
    · exact not_faultyAt_of_blank hc hb
    · exact hclear i hi hlt
  | @lexeme n c w rest l fault hw hbound _ ih =>
    obtain ⟨hle, hoccurs, hclear⟩ := ih (drop_of_drop hs) (fresh_of_lexeme hs hw hbound)
    refine ⟨by omega, hoccurs, fun i hi hlt => ?_⟩
    rcases Nat.lt_or_ge i (n + (c :: w).length) with hin | hge
    · obtain ⟨k, rfl⟩ := Nat.exists_eq_add_of_le hi
      exact not_faultyAt_of_lexeme hs hw hbound (by omega)
    · exact hclear i hge hlt

/-- A scan stops with a fault exactly if the fault occurs and is the first one. -/
theorem tokens_eq_error_iff {source : String} {fault : Fault} :
    tokens source = .error fault ↔
      fault.Occurs source.toList ∧ ∀ i < fault.offset, ¬ FaultyAt source.toList i := by
  have hfirst : ∀ {g}, tokens source = .error g →
      g.Occurs source.toList ∧ ∀ i < g.offset, ¬ FaultyAt source.toList i := by
    intro g hg
    obtain ⟨-, hoccurs, hclear⟩ := (stops_of_tokensFrom hg).first (s := source.toList) rfl (fun j c d hj => by omega)
    exact ⟨hoccurs, fun i hi => hclear i (Nat.zero_le i) hi⟩
  refine ⟨hfirst, fun ⟨hoccurs, hclear⟩ => ?_⟩
  cases hts : tokens source with
  | ok ts =>
    have hsound := (tokens_eq_ok_iff.mp hts).not_faultyAt (s := source.toList) rfl
    exact absurd hoccurs.faultyAt (hsound _ (Nat.zero_le _))
  | error g =>
    obtain ⟨hoccurs', hclear'⟩ := hfirst hts
    rcases Nat.lt_trichotomy fault.offset g.offset with hlt | heq | hgt
    · exact absurd hoccurs.faultyAt (hclear' _ hlt)
    · rw [hoccurs.unique hoccurs' heq]
    · exact absurd hoccurs'.faultyAt (hclear _ hgt)

/-- A text that is at fault somewhere is not scanned. -/
theorem exists_tokens_eq_error_iff {source : String} :
    (∃ fault, tokens source = .error fault) ↔ ∃ i, FaultyAt source.toList i := by
  constructor
  · rintro ⟨fault, h⟩
    exact ⟨fault.offset, (tokens_eq_error_iff.mp h).1.faultyAt⟩
  · rintro ⟨i, hi⟩
    cases h : tokens source with
    | ok ts => exact absurd hi ((tokens_eq_ok_iff.mp h).not_faultyAt (s := source.toList) rfl i (Nat.zero_le i))
    | error fault => exact ⟨fault, rfl⟩

end Abacus.Scan

namespace Abacus

open Scan Calculation

theorem calculation_tokens_eq_error {source : String} {failure : Failure} :
    Calculation.tokens source = .error failure ↔
      ∃ fault, Scan.tokens source = .error fault ∧ failure = .error (.ofScan (some source) fault) := by
  rw [Calculation.tokens]
  cases Scan.tokens source with
  | ok ts => simp
  | error fault => simp [eq_comm]

/-- **A scan fails at the first offset at fault, and only if there is one.** The error stands at
the least offset with a stray character or with the start of a row that has too many digits in
front. It names the character in the first case, and says that a number is too large in the
second. -/
theorem scanning_fails_at_first_fault (source : String) :
    ((∃ failure, Calculation.tokens source = .error failure) ↔ ∃ i, FaultyAt source.toList i) ∧
    ∀ failure, Calculation.tokens source = .error failure ↔
      ∃ i, IsLeast {j | FaultyAt source.toList j} i ∧
        ((∃ c, source.toList[i]? = some c ∧ Stray c ∧
            failure = .error ⟨.strayCharacter (String.singleton c), some (.ofOffset i), some source⟩) ∨
          OversizedAt source.toList i ∧ failure = .error ⟨.longNumber, some (.ofOffset i), some source⟩) := by
  refine ⟨?_, fun failure => ?_⟩
  · rw [← exists_tokens_eq_error_iff]
    constructor
    · rintro ⟨failure, h⟩
      obtain ⟨fault, hfault, -⟩ := calculation_tokens_eq_error.mp h
      exact ⟨fault, hfault⟩
    · rintro ⟨fault, hfault⟩
      exact ⟨_, calculation_tokens_eq_error.mpr ⟨fault, hfault, rfl⟩⟩
  rw [calculation_tokens_eq_error]
  constructor
  · rintro ⟨⟨cause, i⟩, hfault, rfl⟩
    obtain ⟨hoccurs, hclear⟩ := tokens_eq_error_iff.mp hfault
    refine ⟨i, ⟨hoccurs.faultyAt, fun j hj => Nat.not_lt.mp fun hlt => hclear j hlt hj⟩, ?_⟩
    cases cause with
    | strayCharacter c => exact .inl ⟨c, hoccurs.1, hoccurs.2, rfl⟩
    | longNumber => exact .inr ⟨hoccurs, rfl⟩
  · rintro ⟨i, ⟨-, hleast⟩, h⟩
    have hclear : ∀ j < i, ¬ FaultyAt source.toList j := fun j hlt hj => Nat.not_lt.mpr (hleast hj) hlt
    obtain ⟨c, hc, hstray, rfl⟩ | ⟨hover, rfl⟩ := h
    · exact ⟨⟨.strayCharacter c, i⟩, tokens_eq_error_iff.mpr ⟨⟨hc, hstray⟩, hclear⟩, rfl⟩
    · exact ⟨⟨.longNumber, i⟩, tokens_eq_error_iff.mpr ⟨hover, hclear⟩, rfl⟩

end Abacus
