import Abacus.Proofs.ParseFaults
import Abacus.Proofs.Viability

/-!
# The first token past all help

The parser goes down into groups and signs and comes back, and it finds in three places that
a token is not the one it needs: at an operand, behind the inside of a group, and behind the
whole expression. In each of them it reports the token at which the list is lost for good:
what stands before it can still be completed, and no list that goes on with it is an
expression.

The argument follows the parser. Wherever it reads an operand or an expression, an operand is
due, inside some number of groups; if it stops for such a reason, it stops at a token for
which there is no outlook (`Halts`).
-/

namespace Abacus.Parse

/-! ### What an outlook makes of a token -/

theorem Signs.ne_endOfInput {t : Token} {op : Operator} (h : Signs t op) : t.lexeme ≠ .endOfInput := by
  obtain ⟨d, hd, -⟩ := h
  simp [hd]

/-- Behind a sign an operand is due as before. -/
theorem next_sign {t : Token} (h : Signs t .add ∨ Signs t .subtract) (g : Nat) :
    (Outlook.operand g).next t.lexeme = some (.operand g) := by
  rcases h with ⟨d, hd, hop⟩ | ⟨d, hd, hop⟩
  · simp [hd, Outlook.next, hop]
  · simp [hd, Outlook.next, hop]

theorem next_operand_eq_none {t : Token} (h : ¬ Begins t) (g : Nat) : (Outlook.operand g).next t.lexeme = none := by
  cases hl : t.lexeme with
  | number value => exact absurd (.inl ⟨value, hl⟩) h
  | identifier name => exact absurd (.inr (.inl ⟨name, hl⟩)) h
  | openParen => exact absurd (.inr (.inr (.inl hl))) h
  | operator d =>
    refine if_neg fun hd => h ?_
    exact .inr (.inr (.inr (hd.imp (fun hd => ⟨d, hl, hd⟩) fun hd => ⟨d, hl, hd⟩)))
  | endOfInput | closeParen | other => rfl

/-- Behind an operand nothing fits but an operator and the end of what is open: the group, or
the input. -/
theorem next_operator_eq_none {l : Lexeme} {g : Nat} (hop : l.isOperator = false) (hclose : l = .closeParen → g = 0)
    (hend : l = .endOfInput → g ≠ 0) : (Outlook.operator g).next l = none := by
  cases l with
  | operator d => cases hop
  | closeParen =>
    rw [hclose rfl]
    rfl
  | endOfInput =>
    cases g with
    | zero => exact absurd rfl (hend rfl)
    | succ g => rfl
  | openParen | number | identifier | other => rfl

/-! ### Where reading halts -/

/-- No token of the list passes for an operator that it is not, and one of them ends the
input. -/
structure Readable (ts : List Token) : Prop where
  genuine : ∀ t ∈ ts, ¬ Counterfeit t
  ends : ∃ t ∈ ts, t.isEnd = true

theorem Readable.of_append {w rest : List Token} (h : Readable (w ++ rest)) (hw : ∀ t ∈ w, t.isEnd = false) :
    Readable rest where
  genuine t ht := h.genuine t (List.mem_append_right w ht)
  ends := by
    obtain ⟨t, ht, hend⟩ := h.ends
    rcases List.mem_append.mp ht with ht | ht
    · rw [hw t ht] at hend
      cases hend
    · exact ⟨t, ht, hend⟩

theorem Readable.tail {t : Token} {ts : List Token} (h : Readable (t :: ts)) (ht : t.lexeme ≠ .endOfInput) :
    Readable ts :=
  Readable.of_append (w := [t]) h (by simpa [Token.isEnd] using ht)

theorem Readable.ne_nil {ts : List Token} (h : Readable ts) : ts ≠ [] := by
  rintro rfl
  obtain ⟨t, ht, -⟩ := h.ends
  cases ht

/-- What is left to read at a fault, when `after` stands behind the token at fault. A token in
surplus has been looked at, and all others have been taken. -/
def Fault.left (fault : Fault) (after : List Token) : List Token :=
  if fault.cause = .surplus then fault.token :: after else after

/-- `Halts s ts stop`: reading the tokens `ts`, of which the outlook is `s`, stops at one of
them that cannot stand there. -/
def Halts (s : Outlook) (ts : List Token) (stop : Stop) : Prop :=
  ∃ before after s', ts = before ++ stop.fault.token :: after ∧ stop.rest = stop.fault.left after ∧
    s.after before = some s' ∧ s'.next stop.fault.token.lexeme = none

theorem Halts.append {s s' : Outlook} {w ts : List Token} {stop : Stop} (hw : s.after w = some s')
    (h : Halts s' ts stop) : Halts s (w ++ ts) stop := by
  obtain ⟨before, after, s'', rfl, hrest, hbefore, hnone⟩ := h
  exact ⟨w ++ before, after, s'', by simp, hrest, by simp [hw, hbefore], hnone⟩

theorem Halts.cons {s s' : Outlook} {t : Token} {ts : List Token} {stop : Stop} (ht : s.next t.lexeme = some s')
    (h : Halts s' ts stop) : Halts s (t :: ts) stop :=
  Halts.append (w := [t]) (by simp [ht]) h

theorem carries_of_not_counterfeit {t : Token} (h : ¬ Counterfeit t) (hop : t.lexeme.isOperator = true) :
    ∃ op, Carries t op := by
  cases hl : t.lexeme with
  | operator d =>
    cases d with
    | operator op => exact ⟨op, hl⟩
    | missing | number | text =>
      refine absurd ⟨hop, ?_⟩ h
      rw [Token.value, hl]
      rfl
  | endOfInput | openParen | closeParen | number | identifier | other =>
    rw [hl] at hop
    cases hop

/-- What goes wrong with a row that was read is no misfit. -/
theorem not_misfit_of_resolve {first : Expr} {run : List (Token × Expr)} {fault : Fault}
    (h : resolve first run = .error fault) : ¬ fault.cause.Misfit := by
  obtain ⟨t, rfl⟩ | ⟨p, -, rfl, -⟩ := resolve_eq_error h
  · exact id
  · exact id

section Read

variable {read : List Token → Except Stop (Front Expr)}
  (hread : ∀ ts e rest, read ts = .ok (e, rest) → ∃ w, ts = w ++ rest ∧ Derives .primary w e)

include hread

/-- A row is read until no operator follows it. -/
theorem head_of_operatorRun {fuel : Nat} {ts rest : List Token} {run : List (Token × Expr)}
    (hfuel : ts.length ≤ fuel) (h : operatorRun read fuel ts = .ok (run, rest)) :
    ∀ t ∈ rest.head?, t.lexeme.isOperator = false := by
  induction fuel generalizing ts run with
  | zero =>
    obtain rfl : ts = [] := List.length_eq_zero_iff.mp (Nat.le_zero.mp hfuel)
    cases h
    simp
  | succ fuel ih =>
    cases ts with
    | nil =>
      cases h
      simp
    | cons t ts =>
      rw [operatorRun] at h
      split at h
      · obtain ⟨⟨right, mid⟩, hright, h⟩ := Except.bind_eq_ok_iff.mp h
        obtain ⟨⟨run', rest'⟩, hrun, h⟩ := Except.bind_eq_ok_iff.mp h
        cases h
        obtain ⟨w, rfl, -⟩ := hread _ _ _ hright
        refine ih ?_ hrun
        simp only [List.length_cons, List.length_append] at hfuel
        omega
      · rename_i ht
        cases h
        simpa using ht

theorem head_of_expression {nesting : Nat} {ts rest : List Token} {e : Expr}
    (h : expression read nesting ts = .ok (e, rest)) : ∀ t ∈ rest.head?, t.lexeme.isOperator = false := by
  obtain ⟨first, mid, run, -, hrun, -⟩ := expression_eq_ok h
  exact head_of_operatorRun hread (Nat.le_refl _) hrun

variable (hhalts : ∀ ts stop, Readable ts → read ts = .error stop → stop.fault.cause.Misfit →
    ∀ g, Halts (.operand g) ts stop)

include hhalts

/-- A row that cannot be read halts inside one of its operands. -/
theorem operatorRun_halts {fuel : Nat} {ts : List Token} {stop : Stop} (hts : Readable ts)
    (h : operatorRun read fuel ts = .error stop) (hstop : stop.fault.cause.Misfit) (g : Nat) :
    Halts (.operator g) ts stop := by
  induction fuel generalizing ts with
  | zero => cases ts <;> cases h
  | succ fuel ih =>
    cases ts with
    | nil => cases h
    | cons t ts =>
      rw [operatorRun] at h
      split at h
      · rename_i ht
        obtain ⟨op, hop⟩ := carries_of_not_counterfeit (hts.genuine t (List.mem_cons_self ..)) ht
        rw [Carries] at hop
        have hnext : (Outlook.operator g).next t.lexeme = some (.operand g) := by rw [hop]; rfl
        have hts' : Readable ts := hts.tail (by simp [hop])
        refine Halts.cons hnext ?_
        obtain hright | ⟨⟨right, mid⟩, hright, hbind⟩ := Except.bind_eq_error_iff.mp h
        · exact hhalts ts stop hts' hright hstop g
        obtain hrun | ⟨⟨run, rest⟩, -, hrun⟩ := Except.bind_eq_error_iff.mp hbind
        · obtain ⟨w, rfl, hw⟩ := hread _ _ _ hright
          exact Halts.append (hw.after g) (ih (hts'.of_append hw.not_isEnd) hrun)
        · cases hrun
      · cases h

theorem expression_halts {nesting : Nat} {ts : List Token} {stop : Stop} (hts : Readable ts)
    (h : expression read nesting ts = .error stop) (hstop : stop.fault.cause.Misfit) (g : Nat) :
    Halts (.operand g) ts stop := by
  obtain h | ⟨first, mid, hfirst, hrun⟩ := expression_eq_error h
  · exact hhalts ts stop hts h hstop g
  obtain ⟨w, rfl, hw⟩ := hread _ _ _ hfirst
  obtain h | ⟨run, rest, fault, -, hres, rfl⟩ := hrun
  · exact Halts.append (hw.after g) (operatorRun_halts hread hhalts (hts.of_append hw.not_isEnd) h hstop g)
  · exact absurd hstop (not_misfit_of_resolve hres)

end Read

/-- What follows the inside of a group and does not close it has no outlook. -/
theorem closeGroup_halts {room nesting : Nat} {ts rest : List Token} {e : Expr} {stop : Stop} (hts : Readable ts)
    (h : expression (operand room) nesting ts = .ok (e, rest)) (hclose : closeGroup nesting e rest = .error stop)
    (g : Nat) : Halts (.operand (g + 1)) ts stop := by
  have hhead := head_of_expression (operand_sound room) h
  obtain ⟨w, first, js, rfl, hflat, rfl⟩ := expression_sound (operand_sound room) h
  have hw := hflat.derives
  cases rest with
  | nil => exact absurd rfl (hts.of_append hw.not_isEnd).ne_nil
  | cons t rest =>
    rw [closeGroup] at hclose
    split at hclose
    · cases hclose
    · rename_i ht
      cases hclose
      exact ⟨w, rest, .operator (g + 1), rfl, rfl, hw.after (g + 1),
        next_operator_eq_none (hhead t rfl) (fun hl => absurd hl ht) (fun _ => Nat.succ_ne_zero g)⟩

/-- Reading an operand halts at a token that cannot stand where it does. -/
theorem operand_halts (room : Nat) (ts : List Token) (stop : Stop) (hts : Readable ts)
    (h : operand room ts = .error stop) (hstop : stop.fault.cause.Misfit) (g : Nat) :
    Halts (.operand g) ts stop := by
  cases ts with
  | nil => exact absurd rfl hts.ne_nil
  | cons t ts =>
    obtain ⟨hbegins, rfl⟩ | ⟨-, rfl⟩ | ⟨room', rfl, hin⟩ := operand_cons_eq_error h
    · exact ⟨[], ts, .operand g, rfl, rfl, rfl, next_operand_eq_none hbegins g⟩
    · exact hstop.elim
    obtain ⟨ht, nesting, hgroup⟩ | ⟨ht, h⟩ | ⟨ht, h | ⟨e, rest, -, rfl⟩⟩ := hin
    · have hts' : Readable ts := hts.tail (by simp [ht])
      have hnext : (Outlook.operand g).next t.lexeme = some (.operand (g + 1)) := by rw [ht]; rfl
      refine Halts.cons hnext ?_
      obtain h | ⟨e, rest, hexpr, hclose⟩ := hgroup
      · exact expression_halts (operand_sound room') (operand_halts room') hts' h hstop (g + 1)
      · exact closeGroup_halts hts' hexpr hclose g
    · have hts' : Readable ts := hts.tail ht.ne_endOfInput
      exact Halts.cons (next_sign (.inl ht) g) (operand_halts room' ts stop hts' h hstop g)
    · have hts' : Readable ts := hts.tail ht.ne_endOfInput
      exact Halts.cons (next_sign (.inr ht) g) (operand_halts room' ts stop hts' h hstop g)
    · exact hstop.elim
termination_by room

/-! ### Whole lists of tokens -/

theorem whole_halts {ts : List Token} {stop : Stop} (hts : Readable ts) (h : whole ts = .error stop)
    (hstop : stop.fault.cause.Misfit) : Halts (.operand 0) ts stop := by
  obtain hexpr | ⟨⟨e, rest⟩, hexpr, hend⟩ := Except.bind_eq_error_iff.mp h
  · exact expression_halts (operand_sound depthLimit) (operand_halts depthLimit) hts hexpr hstop 0
  have hhead := head_of_expression (operand_sound depthLimit) hexpr
  obtain ⟨w, first, js, rfl, hflat, rfl⟩ := expression_sound (operand_sound depthLimit) hexpr
  cases rest with
  | nil => cases hend
  | cons t rest =>
    simp only at hend
    split at hend
    · cases hend
    · rename_i ht
      cases hend
      refine ⟨w, rest, .operator 0, rfl, rfl, hflat.derives.after 0, ?_⟩
      refine next_operator_eq_none (hhead t rfl) (fun _ => rfl) fun hl => absurd ?_ ht
      rw [Token.isEnd, decide_eq_true_eq]
      exact hl

/-- Closing a list adds nothing that would not be read. -/
theorem readable_close {ts : List Token} (h : ∀ t ∈ ts, ¬ Counterfeit t) : Readable (close ts) where
  genuine t ht hfalse := h t (mem_of_mem_close ht hfalse.not_isEnd) hfalse
  ends := exists_isEnd_close ts

/-- **A misfit is reported at the first token past all help.** Let none of the tokens pass for an
operator that it is not, and let the parser find that a token starts no operand, does not close
a group or is in surplus. The list, with its end of input, holds that token where the parser
stands; what is before it can be completed to an expression and an end of input, and no
completion starts with that and the token itself. So the fronts of the list that can still be
completed are those that end before the token at fault. -/
theorem misfit_at_first_hopeless_token {ts : List Token} {fault : Fault} (hgenuine : ∀ t ∈ ts, ¬ Counterfeit t)
    (h : tree ts = .error fault) (hfault : fault.cause.Misfit) :
    ∃ before after nesting, close ts = before ++ fault.token :: after ∧
      whole (close ts) = .error ⟨fault, fault.left after, nesting⟩ ∧
      Viable before ∧ ¬ Viable (before ++ [fault.token]) ∧
      ∀ n, Viable ((close ts).take n) ↔ n ≤ before.length := by
  rw [tree] at h
  split at h
  · cases h
  rename_i stop hwhole
  cases h
  obtain ⟨before, after, s, hts, hrest, hs, hnone⟩ := whole_halts (readable_close hgenuine) hwhole hfault
  have hviable : Viable before := viable_iff.mpr ⟨s, hs⟩
  have hlost : ¬ Viable (before ++ [stop.fault.token]) := not_viable_of_next hs hnone
  refine ⟨before, after, stop.nesting, hts, by rw [hwhole, ← hrest], hviable, hlost, fun n => ?_⟩
  rw [hts]
  exact viable_take_iff hviable hlost n

/-- In `(-3*)` the closing parenthesis stands where an operand is due. -/
theorem misfit_at_first_hopeless_token_operand_due :
    ∃ before after, close [.ofLexeme .openParen 0, .ofLexeme (.operator (.operator .subtract)) 1,
        .ofLexeme (.number (.int 3)) 2, .ofLexeme (.operator (.operator .multiply)) 3, .ofLexeme .closeParen 4] =
          before ++ .ofLexeme .closeParen 4 :: after ∧
      Viable before ∧ ¬ Viable (before ++ [.ofLexeme .closeParen 4]) := by
  have htree : tree [.ofLexeme .openParen 0, .ofLexeme (.operator (.operator .subtract)) 1,
      .ofLexeme (.number (.int 3)) 2, .ofLexeme (.operator (.operator .multiply)) 3, .ofLexeme .closeParen 4] =
        .error ⟨.noOperand, .ofLexeme .closeParen 4⟩ := by decide +kernel
  obtain ⟨before, after, -, hts, -, hviable, hlost, -⟩ :=
    misfit_at_first_hopeless_token (by simp [Counterfeit, Token.ofLexeme, Token.value, Lexeme.isOperator, Datum.operator?])
      htree trivial
  exact ⟨before, after, hts, hviable, hlost⟩

end Abacus.Parse
