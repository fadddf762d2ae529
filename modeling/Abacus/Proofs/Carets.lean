import Abacus.Proofs.Anchors
import Abacus.Proofs.Legibility

/-!
# Errors on the page

An error that shows its source text is written on three lines, with a fourth one for the hint. The
caret on the third line stands below the character that the error points at. For this the source text
must stay on its line, whatever ends of line it has, and so must the message, which can quote a part
of the text: a name, or a single character. A character that is quoted is not blank, so no line ends
at it.
-/

namespace Abacus

open Calculation Text

/-! ### Messages and hints -/

theorem ordinary_of_reports {o : Options} {source : String} {cause : Cause} {place : Option Place}
    (h : Reports o source cause place) : cause.Ordinary := by
  obtain ⟨e, hout, rfl, -⟩ := reports_iff.mp h
  obtain ⟨family, e', heq, -, hord⟩ | h := ordinary_of_outcome hout
  · cases heq
    exact hord
  · cases h

/-- The hint of an error of a source text is a line of its own. -/
theorem Cause.Ordinary.hint_visible {cause : Cause} {hint : String} (h : cause.Ordinary)
    (hhint : cause.hint = some hint) : hint ≠ "" ∧ Visible hint := by
  cases cause with
  | strayCharacter | longNumber | unclosedGroup | surplus =>
    cases hhint
    exact ⟨by decide, visible_of_all rfl⟩
  | tooDeep limit =>
    cases hhint
    constructor
    · intro hempty
      rw [String.append_eq_empty_iff, String.append_eq_empty_iff] at hempty
      exact absurd hempty.1.1 (by decide)
    · exact visible_append.mpr ⟨visible_append.mpr ⟨visible_of_all rfl, visible_int limit⟩, visible_of_all rfl⟩
  | noOperand | unknownName | resultTooLarge => cases hhint
  | noOperator | codelessNode | inapplicable | foreignInstr | stated => exact h.elim

theorem Place.visible_text (p : Place) : Visible p.text := by
  unfold text
  split
  · exact visible_of_all rfl
  · exact visible_int p.offset

theorem quotes_withPosition {source message : String} (h : Quotes source message) (place : Option Place) :
    Quotes source (withPosition message place) := by
  cases place with
  | none => exact h
  | some p =>
    exact quotes_append.mpr ⟨quotes_append.mpr ⟨h, (visible_of_all rfl).quotes _⟩, p.visible_text.quotes _⟩

theorem quotes_of_scan_fault {source : String} {fault : Scan.Fault} (h : Scan.tokens source = .error fault) :
    Quotes source (Error.ofScan (some source) fault).message := by
  obtain ⟨hoccurs, -⟩ := Scan.tokens_eq_error_iff.mp h
  obtain ⟨cause, i⟩ := fault
  cases cause with
  | strayCharacter c =>
    have hc : Quotes source (String.singleton c) := by
      intro d hd
      rw [String.toList_singleton, List.mem_singleton] at hd
      rw [hd]
      exact .inr ⟨List.mem_of_getElem? hoccurs.1, hoccurs.2.1⟩
    exact quotes_append.mpr ⟨quotes_append.mpr ⟨(visible_of_all rfl).quotes _, hc⟩, (visible_of_all rfl).quotes _⟩
  | longNumber =>
    dsimp only [Error.ofScan, Error.message, Cause.message]
    exact (visible_of_all rfl).quotes _

theorem visible_of_eval_fault {source : String} {ts : List Token} {e : Expr} {fault : Machine.Fault} {err : Error}
    (hts : Scan.tokens source = .ok ts) (he : Parse.tree ts = .ok e) (hv : e.eval = .error fault)
    (herr : Failure.ofMachine fault = .error err) : Visible err.message := by
  obtain ⟨t, ht, -, -, ⟨name, hl, hcause⟩ | ⟨op, -, hcause⟩⟩ := exists_token_of_eval_fault hts he hv herr
  · have hname := legible_of_tokens hts t ht
    rw [hl] at hname
    rw [Error.message, hcause]
    exact visible_append.mpr ⟨visible_append.mpr ⟨visible_of_all rfl, hname⟩, visible_of_all rfl⟩
  · have hlabel : Visible op.label := by
      cases op <;> exact visible_of_all rfl
    rw [Error.message, hcause]
    exact visible_append.mpr ⟨visible_append.mpr ⟨visible_of_all rfl, hlabel⟩, visible_of_all rfl⟩

/-- The message of an error shows as it is, but for a stray character of the source text. -/
theorem Ends.quotes_message {o : Options} {source : String} {r : Result} {e : Error} (h : Ends o source r)
    (he : r.error? = some e) : Quotes source e.message := by
  cases h with
  | scanning hts =>
    cases he
    rw [Error.message, shown_cause]
    exact quotes_of_scan_fault hts
  | @parsing ts fault hts hfault =>
    cases he
    rw [Error.message, shown_cause]
    obtain ⟨cause, t⟩ := fault
    cases cause
    all_goals
      dsimp only [Error.ofParse, Error.atToken, Cause.message]
      exact (visible_of_all rfl).quotes _
  | running hts htree hv herr =>
    cases he
    rw [Error.message, shown_cause]
    exact (visible_of_eval_fault hts htree hv herr).quotes _
  | value => cases he

/-! ### The source text -/

theorem Text.unbroken_flatten (s : String) : Unbroken (flatten s) := by
  intro c hc
  rw [flatten, String.toList_ofList] at hc
  obtain ⟨d, -, rfl⟩ := List.mem_map.mp hc
  by_cases hd : isBlank d = true
  · rw [if_pos hd]
    rfl
  · rw [if_neg hd]
    exact isLineEnd_eq_false (Bool.eq_false_iff.mpr hd)

theorem Text.escapeFree_flatten {s : String} (h : EscapeFree s) : EscapeFree (flatten s) := by
  intro hmem
  rw [flatten, String.toList_ofList] at hmem
  obtain ⟨c, hc, heq⟩ := List.mem_map.mp hmem
  by_cases hblank : isBlank c = true
  · rw [if_pos hblank] at heq
    cases heq
  · rw [if_neg hblank] at heq
    exact h (heq ▸ hc)

theorem Text.length_flatten (s : String) : (flatten s).length = s.length := by
  rw [flatten, String.length_ofList, List.length_map, String.length_toList]

theorem Ends.source_eq {o : Options} {source : String} {r : Result} {e : Error} (h : Ends o source r)
    (hshow : o.showSource = true) (he : r.error? = some e) : e.source = some (flatten source) := by
  have hshown : ∀ err, (shown o source err).source = some (flatten source) := by
    intro err
    rw [shown, if_pos hshow]
    rfl
  cases h with
  | scanning | parsing | running =>
    cases he
    exact hshown _
  | value => cases he

/-- The caret is below the place, and the end of the text is behind its last character. -/
theorem Anchored.sourceLines_eq {source flat : String} {cause : Cause} {place : Place}
    (h : Anchored source cause place) (hflat : flat.length = source.length) :
    Error.sourceLines flat place =
      ["    " ++ flat, String.ofList (List.replicate (4 + place.offset.toNat) ' ') ++ "^"] := by
  have hcolumn : (4 + if place.atEnd then (flat.length : Int) else place.offset).toNat = 4 + place.offset.toNat := by
    obtain ⟨hend, hoffset⟩ | ⟨hend, i, -, hoffset, -⟩ := h
    · rw [hend, hoffset, hflat]
      simp only [if_true]
      omega
    · rw [hend, hoffset]
      simp only [Bool.false_eq_true, if_false]
      omega
  have hspaces : ∀ n, "".pushn ' ' n = String.ofList (List.replicate n ' ') := by
    intro n
    rw [← String.toList_inj]
    simp [toList_pushn]
  rw [Error.sourceLines, hcolumn, hspaces]

/-! ### The lines of an error -/

/-- The lines of an error that shows a source text. -/
def Error.parts (e : Error) (flat : String) (place : Place) : List String :=
  ("error: " ++ e.summary) :: sourceLines flat place ++ (e.cause.hint.map ("hint: " ++ ·)).toList

/-- The lines of an error that are about its source text. -/
def Error.context (e : Error) : List String :=
  match e.source, e.position with
  | some source, some p => sourceLines source p
  | _, _ => []

theorem Error.render_eq_context {e : Error} (hordinary : e.cause.Ordinary) :
    e.render = "\n".intercalate (("error: " ++ e.summary) :: e.context ++ (e.cause.hint.map ("hint: " ++ ·)).toList) := by
  rw [render]
  cases hh : e.cause.hint with
  | none => rfl
  | some hint =>
    have hempty : hint.isEmpty = false := by simpa using (hordinary.hint_visible hh).1
    show "\n".intercalate (("error: " ++ e.summary) :: e.context ++ if hint.isEmpty then [] else ["hint: " ++ hint]) = _
    rw [hempty]
    rfl

theorem Error.render_eq {e : Error} {flat : String} {place : Place} (hsource : e.source = some flat)
    (hplace : e.position = some place) (hordinary : e.cause.Ordinary) :
    e.render = "\n".intercalate (e.parts flat place) := by
  rw [render_eq_context hordinary, context, hsource, hplace, parts]

/-- A line of an error shows as it is, but for what it quotes. -/
theorem Error.forall_mem_parts {e : Error} {source : String} (hmessage : Quotes source e.message)
    (hordinary : e.cause.Ordinary) (flat : String) (place : Place) :
    ∀ p ∈ e.parts flat place, p ≠ "" ∧ (p = "    " ++ flat ∨ Quotes source p) := by
  have hnonempty : ∀ {s t : String}, s ≠ "" → s ++ t ≠ "" := by
    intro s t hs
    simp [hs]
  intro p hp
  simp only [parts, sourceLines, List.cons_append, List.nil_append, List.mem_cons, Option.mem_toList,
    Option.map_eq_some_iff] at hp
  rcases hp with rfl | rfl | rfl | ⟨hint, hh, rfl⟩
  · refine ⟨hnonempty (by decide), .inr ?_⟩
    exact quotes_append.mpr ⟨(visible_of_all rfl).quotes _, quotes_withPosition hmessage _⟩
  · exact ⟨hnonempty (by decide), .inl rfl⟩
  · refine ⟨by simp, .inr (Visible.quotes ?_ _)⟩
    exact visible_append.mpr ⟨visible_spaces _, visible_of_all rfl⟩
  · refine ⟨hnonempty (by decide), .inr (Visible.quotes ?_ _)⟩
    exact visible_append.mpr ⟨visible_of_all rfl, (hordinary.hint_visible hh).2⟩

/-- **An error points at what is wrong.** If a calculation that shows the source text ends with an error,
the error has a position: the end of the text, or a character of it that is not blank, which is the one
that is wrong or the first one of a token. And it is written on three lines, with a fourth one for a hint.
They are the summary, the source text with a space for each blank, and a caret below the position. -/
theorem error_points_at_fault {o : Options} {source : String} {r : Result} {e : Error} (hshow : o.showSource = true)
    (hr : (calculate o source).result = .ok r) (he : r.error? = some e) :
    ∃ place, e.position = some place ∧ Anchored source e.cause place ∧
      ∃ flat : String, flat.length = source.length ∧
        flat.toList = source.toList.map (fun c => if isBlank c then ' ' else c) ∧
        lines e.render = ["error: " ++ e.summary, "    " ++ flat,
          String.ofList (List.replicate (4 + place.offset.toNat) ' ') ++ "^"] ++
            (e.cause.hint.map ("hint: " ++ ·)).toList := by
  have hends := ends_iff.mp hr
  obtain ⟨place, hplace, hanchored⟩ := hends.anchored he
  have hordinary : e.cause.Ordinary := ordinary_of_reports ⟨r, e, hr, hends.success_of_error? he, he, rfl, rfl⟩
  have hparts := e.forall_mem_parts (hends.quotes_message he) hordinary (flatten source) place
  have hunbroken : ∀ p ∈ e.parts (flatten source) place, Unbroken p := by
    intro p hp
    rcases (hparts p hp).2 with rfl | hquotes
    · exact unbroken_append.mpr ⟨(visible_of_all rfl).unbroken, unbroken_flatten source⟩
    · exact hquotes.unbroken
  refine ⟨place, hplace, hanchored, flatten source, length_flatten source, String.toList_ofList, ?_⟩
  rw [Error.render_eq (hends.source_eq hshow he) hplace hordinary,
    lines_intercalate hunbroken fun p hp => (hparts p hp).1, Error.parts,
    hanchored.sourceLines_eq (length_flatten source)]

/-- In `7`, a line separator and `@`, the stray character is on the second line of the text. It is shown
on one line with the `7`, and the caret is below it. -/
theorem error_points_at_fault_line_separator :
    Anchored "7\u2028@" (.strayCharacter "@") (.ofOffset 2) ∧
      lines (shown .standard "7\u2028@" (.ofScan (some "7\u2028@") ⟨.strayCharacter '@', 2⟩)).render =
        ["error: Unexpected character \"@\" at position 2", "    7 @", "      ^",
          "hint: only digits, letters, '_', '(', ')' and + - * / % are allowed"] := by
  have hr : (calculate .standard "7\u2028@").result = .ok ⟨"7\u2028@",
      false, none, some (shown .standard "7\u2028@" (.ofScan (some "7\u2028@") ⟨.strayCharacter '@', 2⟩)), [], none, []⟩ :=
    result_of_scan_fault (by decide +kernel)
  obtain ⟨place, hplace, hanchored, flat, -, hflat, hlines⟩ := error_points_at_fault rfl hr rfl
  cases hplace
  obtain rfl : flat = "7 @" := String.toList_inj.mp (hflat.trans (by decide))
  exact ⟨hanchored, hlines⟩

end Abacus
