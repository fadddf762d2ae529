import Abacus.Proofs.Scanning
import Abacus.Token.Listing

/-!
# Rebuilding a source text

The tokens of a text do not say how they were written: zeros at the front of a number
are lost, `mod` and `%` are one operator, and so are `div` and `/`, and any blank may
have stood between two tokens. A text that is rebuilt from the tokens picks one spelling
of each, never longer than the one that was there, and fills up with spaces. It is as
long as the first text and has the same tokens: no spelling runs into the next one, and
none becomes a word with a meaning of its own.
-/

namespace Abacus

open Scan

/-! ### Digits -/

theorem natOfDigits_lt {w : List Char} (h : ∀ d ∈ w, d.isDigit = true) :
    Text.natOfDigits w < 10 ^ w.length := by
  show Nat.ofDigitChars 10 w 0 < _
  induction w with
  | nil => simp
  | cons c w ih =>
    have hc := (isDigit_iff c).mp (h c (List.mem_cons_self ..))
    have hw := ih fun d hd => h d (List.mem_cons_of_mem _ hd)
    rw [Nat.ofDigitChars_cons, Nat.ofDigitChars_eq_ofDigitChars_zero, List.length_cons, Nat.pow_succ]
    have hv : 10 * 0 + (c.toNat - '0'.toNat) ≤ 9 := by
      show 10 * 0 + (c.toNat - 48) ≤ 9
      omega
    have := Nat.mul_le_mul_left (10 ^ w.length) hv
    omega

/-- A row of digits within the limit is a number within it. -/
theorem natOfDigits_lt_limit {w : List Char} (h : ∀ d ∈ w, d.isDigit = true) (hlen : w.length ≤ Number.digitLimit) :
    Text.natOfDigits w < 10 ^ Number.digitLimit :=
  Nat.lt_of_lt_of_le (natOfDigits_lt h) (Nat.pow_le_pow_right (by decide) hlen)

theorem natOfDigits_toDigits (n : Nat) : Text.natOfDigits (Nat.toDigits 10 n) = n :=
  Nat.ofDigitChars_ten_toDigits

/-- A number is never written with more digits than it was read from. -/
theorem length_toDigits_natOfDigits {c : Char} {w : List Char} (h : ∀ d ∈ c :: w, d.isDigit = true) :
    (Nat.toDigits 10 (Text.natOfDigits (c :: w))).length ≤ (c :: w).length :=
  (Nat.length_toDigits_le_iff (by decide) (by simp)).mpr (natOfDigits_lt h)

theorem text?_int {n : Nat} (h : n < 10 ^ Number.digitLimit) :
    (Number.int n).text? = some (String.ofList (Nat.toDigits 10 n)) := by
  show Number.intText? n = _
  rw [Number.intText?, if_pos (by simpa using h)]
  rfl

/-! ### The spelling of a lexeme -/

/-- The character `d` may start a lexeme wherever `c` may, and what may stand behind a lexeme
that starts with `c` may stand behind one that starts with `d`. -/
def Replaces (d c : Char) : Prop :=
  (∀ rest, Bounds c rest → Bounds d rest) ∧ ∀ first, carriesOn first c = false → carriesOn first d = false

theorem Replaces.refl (c : Char) : Replaces c c := ⟨fun _ h => h, fun _ h => h⟩

theorem replaces_of_isDigit {c d : Char} (hc : c.isDigit = true) (hd : d.isDigit = true) : Replaces d c := by
  refine ⟨fun rest h => (bounds_digit hd).mpr ((bounds_digit hc).mp h), fun first h => ?_⟩
  have hnc := (continuesName_iff c).mpr (.inr hc)
  have hnd := (continuesName_iff d).mpr (.inr hd)
  simpa [carriesOn, hc, hd, hnc, hnd] using h

theorem replaces_of_symbol {d : Char} {op : Operator} (h : Lexeme.ofSymbol? d = some op) (c : Char) :
    Replaces d c := by
  refine ⟨fun rest _ => bounds_symbol h rest, fun first _ => ?_⟩
  have hn : Lexeme.continuesName d ≠ true := fun hn => by rw [ofSymbol?_eq_none hn] at h; cases h
  have hd : d.isDigit ≠ true := fun hd => hn ((continuesName_iff d).mpr (.inr hd))
  simp [carriesOn, hn, hd]

/-- The spelling of a lexeme that a text writes: it writes the same lexeme, is not longer, and
fits where the text stood. -/
theorem Scan.Writes.spelling {c : Char} {w : List Char} {l : Lexeme} (h : Writes (c :: w) l) (p : Int) :
    ∃ d v, (Token.ofLexeme l p).spelling? = some (String.ofList (d :: v)) ∧ Writes (d :: v) l ∧
      (d :: v).length ≤ (c :: w).length ∧ Replaces d c := by
  cases h with
  | openParen => exact ⟨'(', [], rfl, .openParen, Nat.le.refl, .refl _⟩
  | closeParen => exact ⟨')', [], rfl, .closeParen, Nat.le.refl, .refl _⟩
  | symbol hs =>
    refine ⟨c, [], ?_, .symbol hs, Nat.le.refl, .refl _⟩
    unfold Lexeme.ofSymbol? at hs
    split at hs
    any_goals (cases hs; rfl)
    cases hs
  | number hd hlen =>
    have hle := length_toDigits_natOfDigits hd
    have hdigits : ∀ d ∈ Nat.toDigits 10 (Text.natOfDigits (c :: w)), d.isDigit = true :=
      fun d hmem => Nat.isDigit_of_mem_toDigits (by decide) (by decide) hmem
    have hvalue := natOfDigits_toDigits (Text.natOfDigits (c :: w))
    have htext := text?_int (natOfDigits_lt_limit hd hlen)
    cases hv : Nat.toDigits 10 (Text.natOfDigits (c :: w)) with
    | nil => exact absurd hv Nat.toDigits_ne_nil
    | cons d v =>
      rw [hv] at hle hdigits hvalue htext
      refine ⟨d, v, htext, ?_, hle, replaces_of_isDigit (hd c (List.mem_cons_self ..)) (hdigits d (List.mem_cons_self ..))⟩
      rw [← hvalue]
      exact .number hdigits (Nat.le_trans hle hlen)
  | word hc hw =>
    have hword := Writes.word hc hw
    rw [Lexeme.ofName] at hword ⊢
    split
    · rename_i op hop
      unfold Lexeme.ofWord? at hop
      split at hop
      · cases hop
        exact ⟨'%', [], rfl, .symbol rfl, by simp, replaces_of_symbol rfl c⟩
      split at hop
      · cases hop
        exact ⟨'/', [], rfl, .symbol rfl, by simp, replaces_of_symbol rfl c⟩
      · cases hop
    · rename_i hop
      rw [hop] at hword
      exact ⟨c, w, rfl, hword, Nat.le.refl, .refl _⟩

/-! ### The rebuilt text -/

/-- The first token of a text does not start before the text. -/
theorem Scan.Scans.le_position {n : Nat} {cs : List Char} {ts : List Token} (h : Scans n cs ts) :
    ∃ t ts', ts = t :: ts' ∧ (n : Int) ≤ t.position := by
  induction h with
  | stop => exact ⟨_, _, rfl, Int.le_refl _⟩
  | blank _ _ ih =>
    obtain ⟨t, ts', rfl, hle⟩ := ih
    exact ⟨t, ts', rfl, by omega⟩
  | lexeme => exact ⟨_, _, rfl, Int.le_refl _⟩

/-- With fewer characters written, as many more spaces come first. -/
theorem rebuildFrom?_of_le {m n : Nat} (h : m ≤ n) {t : Token} (ht : (n : Int) ≤ t.position) (ts : List Token) :
    Token.rebuildFrom? m (t :: ts) =
      (Token.rebuildFrom? n (t :: ts)).map (List.replicate (n - m) ' ' ++ ·) := by
  have hgap : (t.position - m).toNat = (n - m) + (t.position - n).toNat := by omega
  have hwritten : m + (t.position - m).toNat = n + (t.position - n).toNat := by omega
  simp only [Token.rebuildFrom?, hwritten]
  simp only [hgap, ← List.replicate_append_replicate, List.append_assoc]
  cases t.spelling? with
  | none => rfl
  | some spelling =>
    simp only [Option.bind_eq_bind, Option.bind_some]
    cases Token.rebuildFrom? _ ts <;> rfl

/-- Spaces before a text only move it. -/
theorem Scan.Scans.spaces {n : Nat} {cs : List Char} {ts : List Token} (k : Nat) (h : Scans (n + k) cs ts) :
    Scans n (List.replicate k ' ' ++ cs) ts := by
  induction k generalizing n with
  | zero => exact h
  | succ k ih =>
    rw [List.replicate_succ, List.cons_append]
    refine .blank rfl (ih ?_)
    rw [Nat.add_assoc, Nat.add_comm 1]
    exact h

/-- A space carries nothing on. -/
theorem bounds_space (first : Char) (rest : List Char) : Bounds first (' ' :: rest) := by
  rintro d ⟨⟩
  rw [carriesOn]
  split
  · rfl
  · exact Bool.and_false _

theorem bounds_spaces {first : Char} {text : List Char} (k : Nat) (h : Bounds first text) :
    Bounds first (List.replicate k ' ' ++ text) := by
  cases k with
  | zero => exact h
  | succ k => exact bounds_space first _

/-- The rebuilt text is as long as the text, is cut into the same tokens, and can stand
wherever the text can. -/
theorem Scan.Scans.rebuild {n : Nat} {cs : List Char} {ts : List Token} (h : Scans n cs ts) :
    ∃ text, Token.rebuildFrom? n ts = some text ∧ text.length = cs.length ∧ Scans n text ts ∧
      ∀ first, Bounds first cs → Bounds first text := by
  induction h with
  | @stop n => exact ⟨[], by simp [Token.rebuildFrom?, Token.spelling?, Token.ofLexeme], rfl, .stop, fun _ h => h⟩
  | @blank n c cs ts _ hscans ih =>
    obtain ⟨text, hbuild, hlen, htext, -⟩ := ih
    obtain ⟨t, ts', rfl, hle⟩ := hscans.le_position
    refine ⟨' ' :: text, ?_, by simp [hlen], .blank rfl htext, fun first _ => bounds_space first text⟩
    rw [rebuildFrom?_of_le (Nat.le_add_right n 1) hle, hbuild, Nat.add_sub_cancel_left]
    rfl
  | @lexeme n c w rest l ts hw hbound hscans ih =>
    obtain ⟨text, hbuild, hlen, htext, hfits⟩ := ih
    obtain ⟨t, ts', rfl, hle⟩ := hscans.le_position
    obtain ⟨d, v, hspell, hv, hshort, hbehind, hbefore⟩ := hw.spelling n
    -- the spelling may be shorter than what it replaces: spaces make up for it
    obtain ⟨k, hk⟩ := Nat.exists_eq_add_of_le hshort
    refine ⟨d :: v ++ (List.replicate k ' ' ++ text), ?_, ?_, ?_, ?_⟩
    · have hrest := rebuildFrom?_of_le (Nat.add_le_add_left hshort n) hle ts'
      rw [hbuild, show n + (c :: w).length - (n + (d :: v).length) = k by omega] at hrest
      rw [Token.rebuildFrom?, hspell]
      simp only [Token.ofLexeme, Int.sub_self, Int.toNat_zero, Nat.add_zero, Option.bind_eq_bind,
        Option.bind_some, String.toList_ofList, hrest]
      rfl
    · simp only [List.length_append, List.length_replicate, hlen, hk]
      omega
    · refine .lexeme hv (bounds_spaces k (hbehind text (hfits c hbound))) (Scans.spaces k ?_)
      rw [Nat.add_assoc, ← hk]
      exact htext
    · intro first hfirst
      rintro e ⟨⟩
      exact hbefore first (hfirst c rfl)

/-- **A rebuilt source text has the same tokens.** If a text can be scanned, the text rebuilt
from its tokens is as long, and scanning it gives these tokens again, each with its kind,
its value and its position. -/
theorem scan_rebuild {source : String} {ts : List Token} (h : Scan.tokens source = .ok ts) :
    ∃ text, Token.rebuild? ts = some text ∧ text.length = source.length ∧ Scan.tokens text = .ok ts := by
  obtain ⟨text, hbuild, hlen, htext, -⟩ := (Scan.tokens_eq_ok_iff.mp h).rebuild
  refine ⟨String.ofList text, by rw [Token.rebuild?, hbuild]; rfl, ?_, ?_⟩
  · rw [String.length_ofList, hlen, String.length_toList]
  · rw [Scan.tokens_eq_ok_iff, String.toList_ofList]
    exact htext

/-- The text `012mod`, a tab and `x` loses its zero, its tab and its word, but no token and no
place. -/
theorem scan_rebuild_reserved_word :
    ∃ ts text, Scan.tokens "012mod\tx" = .ok ts ∧ ts.length = 4 ∧ Token.rebuild? ts = some text ∧
      text.length = 8 ∧ Scan.tokens text = .ok ts := by
  have h : Scan.tokens "012mod\tx" = .ok [.ofLexeme (.number (.int 12)) 0,
      .ofLexeme (.operator (.operator .modulo)) 3, .ofLexeme (.identifier "x") 7, .ofLexeme .endOfInput 8] := rfl
  obtain ⟨text, hbuild, hlen, htext⟩ := scan_rebuild h
  exact ⟨_, text, h, rfl, hbuild, hlen, htext⟩

end Abacus
