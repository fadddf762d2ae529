import Abacus.Proofs.ScanFaults

/-!
# Scanning one text behind another

A scan knows nothing of what stands behind the lexeme that it is taking, except for the one
character that could carry the lexeme on. So a text that is put behind another one changes
nothing in the scan of the first, as long as no letter or digit meets another one at the joint,
and the scan then goes on in the second text as if it had started there. This holds of scans that
end well and of scans that stop: `Scans` and `Stops` are both carried over the joint.
-/

namespace Abacus.Scan

/-! ### Scans that stop -/

theorem Stray.cut_eq {c : Char} (h : Stray c) (cs : List Char) : cut c cs = ⟨0, .error (.strayCharacter c)⟩ := by
  obtain ⟨-, hname, hmark⟩ := h
  simp only [marks, List.mem_cons, not_or] at hmark
  refine cut_stray hmark.1 hmark.2.1 ?_ hname cs
  rw [ofSymbol?_eq_none_iff]
  simpa using hmark.2.2

theorem cut_long {c : Char} {w : List Char} (hdigits : ∀ d ∈ c :: w, d.isDigit = true)
    (hlong : Number.digitLimit < (c :: w).length) (rest : List Char) :
    (cut c (w ++ rest)).lexeme = .error .longNumber := by
  have hrow : w.length ≤ ((w ++ rest).takeWhile Char.isDigit).length := by
    rw [List.takeWhile_append_of_pos fun d hd => hdigits d (List.mem_cons_of_mem c hd), List.length_append]
    exact Nat.le_add_right ..
  rw [cut_digit (hdigits c List.mem_cons_self)]
  rw [List.length_cons] at hlong
  exact if_neg (by omega)

/-- A scan stops wherever it can. -/
theorem tokensFrom_of_stops {n : Nat} {cs : List Char} {fault : Fault} (h : Stops n cs fault) :
    tokensFrom 0 n cs = .error fault := by
  induction h with
  | stray hstray => rw [tokensFrom_cons hstray.1, hstray.cut_eq]
  | @long n w rest hdigits hlong =>
    cases w with
    | nil => cases hlong
    | cons c w =>
      have hname := (continuesName_iff c).mpr (.inr (hdigits c List.mem_cons_self))
      rw [List.cons_append, tokensFrom_cons (isBlank_of_continuesName hname), cut_long hdigits hlong]
  | blank hb _ ih =>
    rw [tokensFrom, hb]
    exact ih
  | @lexeme n c w rest l fault hw hbound _ ih =>
    rw [List.cons_append, tokensFrom_cons hw.not_blank, cut_of_writes hw hbound]
    simp only [tokensFrom_length]
    rw [show n + 1 + w.length = n + (c :: w).length by simp; omega, ih]
    rfl

theorem tokens_eq_error_iff_stops {source : String} {fault : Fault} :
    tokens source = .error fault ↔ Stops 0 source.toList fault :=
  ⟨stops_of_tokensFrom, tokensFrom_of_stops⟩

theorem Stops.ne_nil {n : Nat} {cs : List Char} {fault : Fault} (h : Stops n cs fault) : cs ≠ [] := by
  cases h with
  | stray | blank | lexeme => simp
  | long _ hlong =>
    intro hnil
    rw [(List.append_eq_nil_iff.mp hnil).1] at hlong
    cases hlong

/-! ### Over the joint -/

/-- The fault, further on in the text. -/
def Fault.further (fault : Fault) (k : Nat) : Fault := ⟨fault.cause, fault.offset + k⟩

/-- A text that is read further on has the same fault, further on. -/
theorem Stops.further {n : Nat} {cs : List Char} {fault : Fault} (h : Stops n cs fault) (k : Nat) :
    Stops (n + k) cs (fault.further k) := by
  induction h with
  | stray hstray => exact .stray hstray
  | long hdigits hlong => exact .long hdigits hlong
  | blank hb _ ih =>
    refine .blank hb ?_
    rw [Nat.add_right_comm]
    exact ih
  | lexeme hw hbound _ ih =>
    refine .lexeme hw hbound ?_
    rw [Nat.add_right_comm]
    exact ih

/-- A fault stays what it is, whatever stands behind the text. -/
theorem Stops.append {n : Nat} {cs : List Char} {fault : Fault} (h : Stops n cs fault) (ds : List Char) :
    Stops n (cs ++ ds) fault := by
  induction h with
  | stray hstray => exact .stray hstray
  | @long n w rest hdigits hlong =>
    rw [List.append_assoc]
    exact .long hdigits hlong
  | blank hb _ ih => exact .blank hb ih
  | @lexeme n c w rest l fault hw hbound hstops ih =>
    -- the fault is in `rest`, so the character that bounds the lexeme is still there
    obtain ⟨d, rest, rfl⟩ := List.exists_cons_of_ne_nil hstops.ne_nil
    rw [List.append_assoc]
    exact .lexeme hw hbound ih

/-- A fault behind a text that can be scanned is a fault of the whole. -/
theorem Scans.append_stops {n : Nat} {cs ds : List Char} {ts : List Token} {fault : Fault} (h : Scans n cs ts)
    (hds : Stops (n + cs.length) ds fault) (hapart : Apart cs ds) : Stops n (cs ++ ds) fault := by
  induction h with
  | stop => exact hds
  | @blank n c cs ts hb _ ih =>
    rw [List.length_cons, ← Nat.add_assoc, Nat.add_right_comm] at hds
    exact .blank hb (ih hds (show Apart ([c] ++ cs) ds from hapart).of_append)
  | @lexeme n c w rest l ts hw hbound _ ih =>
    rw [List.length_append, ← Nat.add_assoc] at hds
    rw [List.append_assoc]
    refine .lexeme hw ?_ (ih hds hapart.of_append)
    cases rest with
    | nil => exact hw.bounds (by simpa using hapart)
    | cons d rest => exact hbound

/-- **Scanning goes over a joint.** Let no letter, digit or underscore at the end of `a` meet one at
the start of `b`. If both texts can be scanned, the tokens of `a ++ b` are those of `a` without their
end of input, and those of `b`, each as much further on as `a` is long. If `a` cannot be scanned,
`a ++ b` has the same fault at the same offset. And if only `b` cannot, `a ++ b` has the fault of `b`,
as much further on as `a` is long. -/
theorem tokens_of_append {a b : String} (hapart : Apart a.toList b.toList) :
    (∀ ts us, tokens a = .ok ts → tokens b = .ok us →
      ∃ front, ts = front ++ [.ofLexeme .endOfInput a.length] ∧
        tokens (a ++ b) = .ok (front ++ us.map (Token.relocate (· + a.length)))) ∧
    (∀ fault, tokens a = .error fault → tokens (a ++ b) = .error fault) ∧
    ∀ ts fault, tokens a = .ok ts → tokens b = .error fault →
      tokens (a ++ b) = .error ⟨fault.cause, fault.offset + a.length⟩ := by
  refine ⟨?_, ?_, ?_⟩
  · intro ts us ha hb
    have hscans := tokens_eq_ok_iff.mp ha
    have hbehind : Scans (0 + a.toList.length) b.toList (us.map (Token.relocate (· + a.length))) := by
      rw [String.length_toList]
      exact (tokens_eq_ok_iff.mp hb).relocate a.length
    refine ⟨ts.dropLast, ?_, ?_⟩
    · have hlast := hscans.eq_concat.1
      rwa [Nat.zero_add, String.length_toList] at hlast
    · rw [tokens_eq_ok_iff, String.toList_append]
      exact hscans.append hbehind hapart
  · intro fault ha
    rw [tokens_eq_error_iff_stops, String.toList_append]
    exact (tokens_eq_error_iff_stops.mp ha).append b.toList
  · intro ts fault ha hb
    have hbehind : Stops (0 + a.toList.length) b.toList (fault.further a.length) := by
      rw [String.length_toList]
      exact (tokens_eq_error_iff_stops.mp hb).further a.length
    rw [tokens_eq_error_iff_stops, String.toList_append]
    exact (tokens_eq_ok_iff.mp ha).append_stops hbehind hapart

/-- In `3mod` and `(x&1`, only the second text is at fault, at its offset 2; together they are at
fault at the offset 6. -/
theorem tokens_of_append_fault_behind :
    Apart "3mod".toList "(x&1".toList ∧
      tokens "3mod" = .ok [.ofLexeme (.number (.int 3)) 0, .ofLexeme (.operator (.operator .modulo)) 1,
        .ofLexeme .endOfInput 4] ∧
      tokens "(x&1" = .error ⟨.strayCharacter '&', 2⟩ ∧
      tokens ("3mod" ++ "(x&1") = .error ⟨.strayCharacter '&', 6⟩ := by
  have hapart : Apart "3mod".toList "(x&1".toList := apart_of_head rfl _ ['x', '&', '1']
  have ha : tokens "3mod" = .ok [.ofLexeme (.number (.int 3)) 0, .ofLexeme (.operator (.operator .modulo)) 1,
      .ofLexeme .endOfInput 4] := by decide +kernel
  have hb : tokens "(x&1" = .error ⟨.strayCharacter '&', 2⟩ := by decide +kernel
  obtain ⟨-, -, hfault⟩ := tokens_of_append hapart
  exact ⟨hapart, ha, hb, hfault _ _ ha hb⟩

end Abacus.Scan
