import Abacus.Proofs.ScanFaults
import Mathlib.Data.List.Chain

/-!
# Tokens that are laid out by hand

A list of tokens need not come from a text. If it is laid out as the tokens of a text are, with room for the
spelling of each token and a gap where two spellings would run together, then it can be spelled out, and
scanning gives the tokens back, each at its place. The spelling of a token and the reading of a lexeme come from
two tables that know nothing of each other, and they agree on all lexemes but one. Floor division has no
spelling of its own: it is written with the word `div`, which is read as a division.
-/

namespace Abacus

open Scan

/-! ### Lexemes -/

namespace Lexeme

/-- The lexeme can be spelled: a parenthesis, any operator, a natural number within the limit of digits, or a
name that is no reserved word. -/
def Regular : Lexeme → Prop
  | .openParen | .closeParen => True
  | .operator value => ∃ op, value = .operator op
  | .number value => ∃ n : Nat, value = .int n ∧ n < 10 ^ Number.digitLimit
  | .identifier name => (∃ c w, name = String.ofList (c :: w) ∧ startsName c = true ∧ ∀ d ∈ w, continuesName d = true) ∧
      name ≠ "mod" ∧ name ≠ "div"
  | .endOfInput | .other _ => False

/-- The lexeme that is read where this one was written. -/
def reread : Lexeme → Lexeme
  | .operator (.operator .floorDivide) => .operator (.operator .divide)
  | l => l

end Lexeme

/-- The spelling of a lexeme is read as the lexeme, but for floor division. -/
theorem Lexeme.Regular.spelling {l : Lexeme} (h : l.Regular) (p : Int) :
    ∃ c w, (Token.ofLexeme l p).spelling? = some (String.ofList (c :: w)) ∧ Writes (c :: w) l.reread := by
  cases l with
  | openParen => exact ⟨'(', [], rfl, .openParen⟩
  | closeParen => exact ⟨')', [], rfl, .closeParen⟩
  | operator value =>
    obtain ⟨op, rfl⟩ := h
    cases op with
    | multiply => exact ⟨'*', [], rfl, .symbol rfl⟩
    | divide => exact ⟨'/', [], rfl, .symbol rfl⟩
    | modulo => exact ⟨'%', [], rfl, .symbol rfl⟩
    | floorDivide => exact ⟨'d', ['i', 'v'], rfl, .word rfl (List.all_eq_true.mp rfl)⟩
    | add => exact ⟨'+', [], rfl, .symbol rfl⟩
    | subtract => exact ⟨'-', [], rfl, .symbol rfl⟩
  | number value =>
    obtain ⟨n, rfl, hn⟩ := h
    have htext := text?_int hn
    have hdigits : ∀ d ∈ Nat.toDigits 10 n, d.isDigit = true :=
      fun d hd => Nat.isDigit_of_mem_toDigits (by decide) (by decide) hd
    have hlength : (Nat.toDigits 10 n).length ≤ Number.digitLimit :=
      (Nat.length_toDigits_le_iff (by decide) (by decide)).mpr hn
    have hvalue := natOfDigits_toDigits n
    cases hw : Nat.toDigits 10 n with
    | nil => exact absurd hw Nat.toDigits_ne_nil
    | cons c w =>
      rw [hw] at htext hdigits hlength hvalue
      refine ⟨c, w, htext, ?_⟩
      show Writes (c :: w) (.number (.int n))
      rw [← hvalue]
      exact .number hdigits hlength
  | identifier name =>
    obtain ⟨⟨c, w, rfl, hc, hw⟩, hmod, hdiv⟩ := h
    have hname : Lexeme.ofName (String.ofList (c :: w)) = .identifier (String.ofList (c :: w)) := by
      rw [ofName, ofWord?, if_neg hmod, if_neg hdiv]
    refine ⟨c, w, rfl, ?_⟩
    have hwrites := Writes.word hc hw
    rwa [hname] at hwrites
  | endOfInput | other => exact h.elim

/-! ### Layouts -/

/-- The text is a row of letters, digits and underscores. -/
def IsRow (text : String) : Prop := text ≠ "" ∧ ∀ c ∈ text.toList, Lexeme.continuesName c = true

namespace Token

/-- The token can be spelled, and has no value but its own. -/
def Regular (t : Token) : Prop := t.lexeme.Regular ∧ t.note = .missing

/-- The token that is read where this one was written. -/
def reread (t : Token) : Token := { t with lexeme := t.lexeme.reread }

/-- The token `u` starts no sooner than the spelling of `t` ends, and later if the spellings of both are rows. -/
def LeavesRoom (t u : Token) : Prop :=
  ∀ v w, t.spelling? = some v → u.spelling? = some w →
    t.position + v.length ≤ u.position ∧ (IsRow v → IsRow w → t.position + v.length < u.position)

/-- The tokens, and behind them the end of input at the offset `p`. -/
def endAt (p : Int) (ts : List Token) : List Token := ts ++ [.ofLexeme .endOfInput p]

end Token

/-- The tokens, and the end of input at the offset `p`, are laid out behind `n` characters as those of a text
are. -/
structure LaidOut (n : Nat) (ts : List Token) (p : Int) : Prop where
  regular : ∀ t ∈ ts, t.Regular
  start : ∀ t ∈ (Token.endAt p ts).head?, (n : Int) ≤ t.position
  room : (Token.endAt p ts).IsChain Token.LeavesRoom

/-- A spelling that starts with a letter, a digit or an underscore is a row. -/
theorem Scan.Writes.isRow {c : Char} {w : List Char} {l : Lexeme} (h : Writes (c :: w) l)
    (hc : Lexeme.continuesName c = true) : IsRow (String.ofList (c :: w)) := by
  refine ⟨by simp, ?_⟩
  rw [String.toList_ofList]
  by_cases hw : w = []
  · subst hw
    simpa using hc
  · exact h.continuesName hw

theorem continuesName_of_carriesOn {c d : Char} (h : carriesOn c d = true) :
    Lexeme.continuesName c = true ∧ Lexeme.continuesName d = true := by
  unfold carriesOn at h
  split at h
  · rename_i hc
    exact ⟨(continuesName_iff c).mpr (.inr hc), (continuesName_iff d).mpr (.inr h)⟩
  · rw [Bool.and_eq_true] at h
    exact ⟨(continuesName_iff c).mpr (.inl h.1), h.2⟩

/-- The text that starts at the offset `n` starts with a space, or else with the spelling of the token `t`, which
then stands at `n`. -/
def StartsWith (n : Nat) (text : List Char) (t : Token) : Prop :=
  ∀ d ∈ text.head?, d = ' ' ∨ (t.position = n ∧ ∃ w, t.spelling? = some (String.ofList (d :: w)) ∧
    (Lexeme.continuesName d = true → IsRow (String.ofList (d :: w))))

/-- A token that leaves room for the next one is not carried on by the text of that. -/
theorem bounds_of_leavesRoom {n : Nat} {c : Char} {w text : List Char} {l : Lexeme} {t u : Token}
    (hspelling : t.spelling? = some (String.ofList (c :: w))) (hw : Writes (c :: w) l)
    (hroom : t.LeavesRoom u) (hn : t.position + (String.ofList (c :: w)).length = n) (htext : StartsWith n text u) :
    Bounds c text := by
  intro d hd
  rw [Bool.eq_false_iff]
  intro hcarries
  obtain ⟨hc, hd'⟩ := continuesName_of_carriesOn hcarries
  obtain rfl | ⟨hposition, v, hv, hrow⟩ := htext d hd
  · cases hd'
  · have hlt := (hroom _ _ hspelling hv).2 (hw.isRow hc) (hrow hd')
    omega

theorem startsWith_spaces {n k : Nat} {text : List Char} {t : Token} (h : k = 0 → StartsWith n text t) :
    StartsWith n (List.replicate k ' ' ++ text) t := by
  cases k with
  | zero => exact h rfl
  | succ k =>
    rintro d ⟨⟩
    exact .inl rfl

/-- What is behind the first token is laid out behind its spelling, and is left room for. -/
theorem LaidOut.tail {n k : Nat} {t : Token} {ts : List Token} {p : Int} {v : String} (h : LaidOut n (t :: ts) p)
    (hv : t.spelling? = some v) (hk : t.position + v.length = k) :
    LaidOut k ts p ∧ ∀ u ∈ (Token.endAt p ts).head?, t.LeavesRoom u := by
  have hregular : ∀ u ∈ ts, u.Regular := fun u hu => h.regular u (List.mem_cons_of_mem t hu)
  have hspelled : ∀ u ∈ Token.endAt p ts, ∃ w, u.spelling? = some w := by
    intro u hu
    rcases List.mem_append.mp hu with hu | hu
    · obtain ⟨c, w, hw, -⟩ := (hregular u hu).1.spelling u.position
      exact ⟨_, hw⟩
    · rw [List.mem_singleton.mp hu]
      exact ⟨"", rfl⟩
  obtain ⟨hroom, hchain⟩ := List.isChain_cons.mp (show (t :: Token.endAt p ts).IsChain _ from h.room)
  refine ⟨⟨hregular, fun u hu => ?_, hchain⟩, hroom⟩
  obtain ⟨w, hw⟩ := hspelled u (List.mem_of_mem_head? hu)
  have := (hroom u hu v w hv hw).1
  omega

/-- Tokens that are laid out behind `n` characters can be spelled there, and scanning what was spelled gives
them back. -/
theorem LaidOut.scans {n : Nat} {ts : List Token} {p : Int} (h : LaidOut n ts p) :
    ∃ text, Token.rebuildFrom? n (Token.endAt p ts) = some text ∧
      Scans n text ((Token.endAt p ts).map Token.reread) ∧
      ∀ t ∈ (Token.endAt p ts).head?, StartsWith n text t := by
  induction ts generalizing n with
  | nil =>
    have hn : (n : Int) ≤ p := h.start _ rfl
    obtain ⟨k, rfl⟩ : ∃ k : Nat, p = ((n + k : Nat) : Int) := ⟨(p - n).toNat, by omega⟩
    refine ⟨List.replicate k ' ' ++ [], ?_, Scans.spaces k .stop, fun t _ => ?_⟩
    · simp [Token.endAt, Token.rebuildFrom?, Token.ofLexeme, Token.spelling?]
    · exact startsWith_spaces fun _ _ hd => absurd hd (by simp)
  | cons t ts ih =>
    obtain ⟨hregular, hnote⟩ := h.regular t (List.mem_cons_self ..)
    obtain ⟨l, q, note⟩ := t
    obtain rfl : note = .missing := hnote
    obtain ⟨c, w, hspelling, hwrites⟩ := hregular.spelling q
    have hn : (n : Int) ≤ q := h.start _ rfl
    obtain ⟨k, rfl⟩ : ∃ k : Nat, q = ((n + k : Nat) : Int) := ⟨(q - n).toNat, by omega⟩
    have hlength : ((n + k : Nat) : Int) + (String.ofList (c :: w)).length = ((n + k + (c :: w).length : Nat) : Int) := by
      rw [String.length_ofList]
      omega
    obtain ⟨hlaid, hroom⟩ := h.tail hspelling hlength
    obtain ⟨text, hbuild, hscans, hstarts⟩ := ih hlaid
    refine ⟨List.replicate k ' ' ++ (c :: w ++ text), ?_, ?_, ?_⟩
    · have hgap : (((n + k : Nat) : Int) - n).toNat = k := by omega
      rw [Token.endAt, List.cons_append, ← Token.endAt, Token.rebuildFrom?]
      simp only [show Token.spelling? ⟨l, ((n + k : Nat) : Int), .missing⟩ = _ from hspelling, hgap, String.toList_ofList,
        Option.bind_eq_bind, Option.bind_some, hbuild]
      rw [List.append_assoc]
      rfl
    · refine Scans.spaces k (.lexeme hwrites ?_ hscans)
      obtain ⟨u, hu⟩ : ∃ u, u ∈ (Token.endAt p ts).head? := by
        cases ts <;> exact ⟨_, rfl⟩
      exact bounds_of_leavesRoom hspelling hwrites (hroom u hu) hlength (hstarts u hu)
    · rintro t ⟨⟩
      refine startsWith_spaces ?_
      rintro rfl d ⟨⟩
      exact .inr ⟨rfl, w, hspelling, hwrites.isRow⟩

theorem Token.reread_eq_self_iff (t : Token) : t.reread = t ↔ t.lexeme ≠ .operator (.operator .floorDivide) := by
  have hlexeme : t.reread = t ↔ t.lexeme.reread = t.lexeme := by
    constructor
    · intro h
      exact congrArg Token.lexeme h
    · intro h
      rw [reread, h]
  rw [hlexeme]
  unfold Lexeme.reread
  split
  · rename_i hl
    simp [hl]
  · rename_i hl
    exact iff_of_true rfl hl

/-- Tokens stay what they are when each of them does. -/
theorem Token.map_reread_eq_self_iff (ts : List Token) :
    ts.map reread = ts ↔ ∀ t ∈ ts, t.lexeme ≠ .operator (.operator .floorDivide) := by
  induction ts with
  | nil => simp
  | cons t ts ih => rw [List.map_cons, List.cons.injEq, ih, reread_eq_self_iff, List.forall_mem_cons]

/-- **Tokens that are laid out well can be spelled and read back.** Let there be parentheses, operators of any
kind, natural numbers within the limit of digits, and names that are no reserved words, and behind them the end
of input. Let none start before the offset zero or before the spelling in front of it ends, and let there be a
gap between two spellings that are both rows of letters, digits and underscores. Then the tokens can be spelled,
and scanning the text gives each of them back at its place, but for floor divisions, which come back as
divisions. So all tokens come back as they were if and only if there is no floor division among them. -/
theorem layout_rebuild {ts : List Token} {p : Int} (h : LaidOut 0 ts p) :
    ∃ text, Token.rebuild? (Token.endAt p ts) = some text ∧
      Scan.tokens text = .ok ((Token.endAt p ts).map Token.reread) ∧
      (Scan.tokens text = .ok (Token.endAt p ts) ↔ ∀ t ∈ ts, t.lexeme ≠ .operator (.operator .floorDivide)) := by
  obtain ⟨text, hbuild, hscans, -⟩ := h.scans
  have htokens : Scan.tokens (String.ofList text) = .ok ((Token.endAt p ts).map Token.reread) := by
    rw [Scan.tokens_eq_ok_iff, String.toList_ofList]
    exact hscans
  refine ⟨String.ofList text, by rw [Token.rebuild?, hbuild]; rfl, htokens, ?_⟩
  rw [htokens, Except.ok.injEq, Token.map_reread_eq_self_iff, Token.endAt, List.forall_mem_append]
  exact and_iff_left (by simp [Token.ofLexeme])

/-- A number, a name that starts like a reserved word, and a group that opens right behind it are spelled
` 7 mod_( ` and read back. -/
theorem layout_rebuild_lookalike :
    LaidOut 0 [.ofLexeme (.number (.int 7)) 1, .ofLexeme (.identifier "mod_") 3, .ofLexeme .openParen 7] 9 ∧
      ∃ text, Token.rebuild? [.ofLexeme (.number (.int 7)) 1, .ofLexeme (.identifier "mod_") 3, .ofLexeme .openParen 7,
          .ofLexeme .endOfInput 9] = some text ∧
        Scan.tokens text = .ok [.ofLexeme (.number (.int 7)) 1, .ofLexeme (.identifier "mod_") 3,
          .ofLexeme .openParen 7, .ofLexeme .endOfInput 9] := by
  have hseven : (Token.ofLexeme (.number (.int 7)) 1).spelling? = some "7" := by decide +kernel
  have hlaid : LaidOut 0 [.ofLexeme (.number (.int 7)) 1, .ofLexeme (.identifier "mod_") 3, .ofLexeme .openParen 7] 9 := by
    refine ⟨?_, fun t ht => ?_, ?_⟩
    · simp only [List.forall_mem_cons, List.not_mem_nil, false_implies, implies_true, and_true]
      refine ⟨⟨⟨7, rfl, by decide +kernel⟩, rfl⟩, ⟨⟨⟨'m', ['o', 'd', '_'], rfl, rfl, List.all_eq_true.mp rfl⟩, ?_⟩, rfl⟩,
        trivial, rfl⟩
      decide
    · cases ht
      decide
    · refine List.isChain_cons_cons.mpr ⟨?_, List.isChain_cons_cons.mpr ⟨?_, List.isChain_pair.mpr ?_⟩⟩
      · rintro v w hv ⟨⟩
        cases hseven.symm.trans hv
        exact ⟨by decide, fun _ _ => by decide⟩
      · rintro v w ⟨⟩ ⟨⟩
        exact ⟨by decide, fun _ hrow => absurd (hrow.2 '(' (by simp)) (by decide)⟩
      · rintro v w ⟨⟩ ⟨⟩
        exact ⟨by decide, fun _ _ => by decide⟩
  obtain ⟨text, hbuild, htokens, -⟩ := layout_rebuild hlaid
  exact ⟨hlaid, text, hbuild, htokens⟩

/-- Floor division is no lexeme of a text: `7 div 2`, which it is spelled as, is read as a division. -/
example :
    Token.rebuild? [.ofLexeme (.number (.int 7)) 0, .ofLexeme (.operator (.operator .floorDivide)) 2,
        .ofLexeme (.number (.int 2)) 6, .ofLexeme .endOfInput 7] = some "7 div 2" ∧
      Scan.tokens "7 div 2" = .ok [.ofLexeme (.number (.int 7)) 0, .ofLexeme (.operator (.operator .divide)) 2,
        .ofLexeme (.number (.int 2)) 6, .ofLexeme .endOfInput 7] := by decide +kernel

end Abacus
