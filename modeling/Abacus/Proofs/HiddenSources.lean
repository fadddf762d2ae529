import Abacus.Proofs.Carets

/-!
# Errors without the source text

An option says whether errors show the source text. It decides whether the text is attached to an error, and
nothing more. An error of scanning is raised with the text, as it is, and so keeps it without the option. The
errors of the other steps know nothing of the text: without the option they are written as a summary and a
hint.
-/

namespace Abacus

open Calculation Text

/-- Both errors of scanning have a hint. -/
theorem Cause.Ordinary.exists_hint {cause : Cause} (h : cause.Ordinary) (hfamily : cause.family = .scanning) :
    ∃ hint, cause.hint = some hint := by
  cases cause with
  | strayCharacter | longNumber => exact ⟨_, rfl⟩
  | stated => exact h.elim
  | noOperand | unclosedGroup | surplus | noOperator | tooDeep | codelessNode | unknownName | inapplicable
    | resultTooLarge | foreignInstr => cases hfamily

section Ends

variable {o : Options} {source : String} {r : Result} {e : Error}

theorem shown_of_hidden (hhide : o.showSource = false) (err : Error) : shown o source err = err := by
  rw [shown, hhide]
  rfl

theorem source_ofMachine {fault : Machine.Fault} {err : Error} (h : Failure.ofMachine fault = .error err) :
    err.source = none := by
  obtain ⟨name, p, -, rfl⟩ | ⟨value, p, text, -, rfl⟩ | ⟨value, p, text, -, rfl⟩ | ⟨object, -, rfl⟩ :=
    Failure.ofMachine_eq_error h <;> rfl

/-- Without the option, an error of scanning has the source text, and no other error has it. -/
theorem Ends.source_of_hidden (h : Ends o source r) (hhide : o.showSource = false) (he : r.error? = some e) :
    e.source = if e.cause.family = .scanning then some source else none := by
  cases h with
  | scanning =>
    cases he
    rw [shown_of_hidden hhide, family_ofScan]
    rfl
  | parsing =>
    cases he
    rw [shown_of_hidden hhide, family_ofParse]
    rfl
  | running _ _ _ hfault =>
    cases he
    rw [shown_of_hidden hhide, family_ofMachine hfault, source_ofMachine hfault]
    rfl
  | value => cases he

/-- Without a source text, an error is written on one line, or on two lines if there is a hint. -/
theorem Ends.lines_of_no_source (h : Ends o source r) (he : r.error? = some e) (hsource : e.source = none) :
    lines e.render = ("error: " ++ e.summary) :: (e.cause.hint.map ("hint: " ++ ·)).toList := by
  have hordinary : e.cause.Ordinary := ordinary_of_reports ⟨r, e, ends_iff.mpr h, h.success_of_error? he, he, rfl, rfl⟩
  have hcontext : e.context = [] := by rw [Error.context, hsource]
  -- the two lines are among those that an error with an empty source text would have
  have hparts := e.forall_mem_parts (h.quotes_message he) hordinary "" (.ofOffset 0)
  have hline : ∀ p ∈ ("error: " ++ e.summary) :: (e.cause.hint.map ("hint: " ++ ·)).toList, p ≠ "" ∧ Unbroken p := by
    intro p hp
    obtain ⟨hne, rfl | hquotes⟩ := hparts p (by
      rcases List.mem_cons.mp hp with rfl | hp
      · exact List.mem_cons_self
      · exact List.mem_append_right _ hp)
    · exact ⟨hne, unbroken_append.mpr ⟨(visible_of_all rfl).unbroken, (visible_of_all rfl).unbroken⟩⟩
    · exact ⟨hne, hquotes.unbroken⟩
  rw [Error.render_eq_context hordinary, hcontext, List.singleton_append,
    lines_intercalate (fun p hp => (hline p hp).2) fun p hp => (hline p hp).1]

end Ends

/-- **Without the option, only an error of scanning shows the source text.** Let a calculation that is not to show
the source text end with an error. If it is an error of scanning, it was raised with the text: it carries the
text as it is, and is written as its summary, the text, a caret below the position, and a hint. Any other
error carries no text, and is written on two lines, its summary and a hint, or on one if it has no hint. -/
theorem source_hidden_unless_scanning {o : Options} {source : String} {r : Result} {e : Error}
    (hhide : o.showSource = false) (hr : (calculate o source).result = .ok r) (he : r.error? = some e) :
    (e.cause.family ≠ .scanning → e.source = none ∧
      lines e.render = ("error: " ++ e.summary) :: (e.cause.hint.map ("hint: " ++ ·)).toList) ∧
    (e.cause.family = .scanning → e.source = some source ∧ ∃ place hint, e.position = some place ∧
      e.cause.hint = some hint ∧ e.render = "\n".intercalate ["error: " ++ e.summary, "    " ++ source,
        String.ofList (List.replicate (4 + place.offset.toNat) ' ') ++ "^", "hint: " ++ hint]) := by
  have hends := ends_iff.mp hr
  have hsource := hends.source_of_hidden hhide he
  constructor
  · intro hfamily
    rw [if_neg hfamily] at hsource
    exact ⟨hsource, hends.lines_of_no_source he hsource⟩
  · intro hfamily
    rw [if_pos hfamily] at hsource
    obtain ⟨place, hplace, hanchored⟩ := hends.anchored he
    have hordinary : e.cause.Ordinary := ordinary_of_reports ⟨r, e, hr, hends.success_of_error? he, he, rfl, rfl⟩
    obtain ⟨hint, hhint⟩ := hordinary.exists_hint hfamily
    refine ⟨hsource, place, hint, hplace, hhint, ?_⟩
    rw [Error.render_eq hsource hplace hordinary, Error.parts, hanchored.sourceLines_eq rfl, hhint]
    rfl

/-- In `(2 + 3` the group is not closed, and in `1 & 2` there is a stray character. The first error is written as
a summary and a hint, and the second one shows the text. -/
theorem source_hidden_unless_scanning_unclosed_group :
    (∃ r e, (calculate ⟨false, false, false⟩ "(2 + 3").result = .ok r ∧ r.error? = some e ∧ e.source = none ∧
      lines e.render = ["error: Expected a ')' at position <EOF>", "hint: add ')' to close the group"]) ∧
    ∃ r e, (calculate ⟨false, false, false⟩ "1 & 2").result = .ok r ∧ r.error? = some e ∧
      e.source = some "1 & 2" := by
  have hts : Scan.tokens "(2 + 3" = .ok [.ofLexeme .openParen 0, .ofLexeme (.number (.int 2)) 1,
      .ofLexeme (.operator (.operator .add)) 3, .ofLexeme (.number (.int 3)) 5, .ofLexeme .endOfInput 6] := by
    decide +kernel
  have htree : Parse.tree [.ofLexeme .openParen 0, .ofLexeme (.number (.int 2)) 1,
      .ofLexeme (.operator (.operator .add)) 3, .ofLexeme (.number (.int 3)) 5, .ofLexeme .endOfInput 6] =
        .error ⟨.unclosedGroup, .ofLexeme .endOfInput 6⟩ := by
    decide +kernel
  have hstray : Scan.tokens "1 & 2" = .error ⟨.strayCharacter '&', 2⟩ := by decide +kernel
  have hr := result_of_parse_fault (o := ⟨false, false, false⟩) hts htree
  have hr' := result_of_scan_fault (o := ⟨false, false, false⟩) hstray
  obtain ⟨hnone, hlines⟩ := (source_hidden_unless_scanning rfl hr rfl).1 (by decide)
  exact ⟨⟨_, _, hr, rfl, hnone, hlines⟩, _, _, hr', rfl, ((source_hidden_unless_scanning rfl hr' rfl).2 rfl).1⟩

/-- A calculation of `1 & 2` that is not to show the source text shows it all the same. -/
theorem stray_character_shows_source :
    ∃ r e, (calculate ⟨false, false, false⟩ "1 & 2").result = .ok r ∧ r.error? = some e ∧ e.source ≠ none ∧
      lines e.render = ["error: Unexpected character \"&\" at position 2", "    1 & 2", "      ^",
        "hint: only digits, letters, '_', '(', ')' and + - * / % are allowed"] := by
  have hstray : Scan.tokens "1 & 2" = .error ⟨.strayCharacter '&', 2⟩ := by decide +kernel
  refine ⟨_, _, result_of_scan_fault hstray, rfl, ?_, ?_⟩
  · decide
  · decide +kernel

end Abacus
