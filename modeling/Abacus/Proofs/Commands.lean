import Abacus.CommandLine.Run
import Abacus.Proofs.Carets
import Abacus.Proofs.Listings

/-!
# The command and the calculation

The command prints what a calculation gives: the listings that it was asked for, and then the value,
or on the other output what is wrong. Listings are printed while the work goes on. So when the work
fails, those of the stages before are there, and all of them stand before the value. The four ways
in which a calculation can end have a code each, but for a value that is too long to be printed,
which counts as an error.

All of this goes through the toolkit. What the command needs of it are two things that its
documentation promises: that options and the operand arrive as they were given, and that a text is
written as it is, with an end of line, unless there are escape characters in it. Listings and values
have none. An error shows the source text, and may lose the escape sequences in it.
-/

namespace Abacus

open Calculation Text

namespace CommandLine

/-! ### What is asked of the toolkit -/

/-- The request for the value of an expression, with the listings that the options name. -/
def Request.ofFlags (flags : List String) (expression : String) : Request :=
  ⟨some expression, none, flags.contains "--tokens", flags.contains "--ast", flags.contains "--bytecode", false⟩

/-- The promises of a toolkit on which the command relies. -/
structure Toolkit.Reliable (toolkit : Toolkit) : Prop where
  /-- An option without a value is on if it is given, wherever and however often. Behind `--` there are no more
  options, and what stands there is the operand, unchanged. -/
  read_flags : ∀ (files : String → FileEntry) (flags : List String) (expression : String),
    (∀ f ∈ flags, f ∈ ["--tokens", "--ast", "--bytecode"]) →
      toolkit.read declaration files (flags ++ ["--", expression]) = .ok (.ofFlags flags expression)
  /-- A text is written with an end of line behind it. If it loses anything, these are escape sequences. -/
  echo_escapeFree : ∀ (channel : Channel) (text : String), EscapeFree text → toolkit.echo channel text = text ++ "\n"

/-! ### The answer -/

section Answer

variable (flags : List String) (e : String)

theorem lists_ofFlags {s : Stage} (hs : s ∈ finished e) :
    (Request.ofFlags flags e).lists s = flags.contains ("--" ++ s.name) := by
  have htokens : "--" ++ "tokens" = "--tokens" := by decide +kernel
  have htree : "--" ++ "ast" = "--ast" := by decide +kernel
  have hcode : "--" ++ "bytecode" = "--bytecode" := by decide +kernel
  obtain ⟨ts, -, rfl | ⟨e, -, rfl | rfl⟩⟩ := mem_finished hs
  · simp [Request.lists, Request.ofFlags, Stage.name, htokens]
  · simp [Request.lists, Request.ofFlags, Stage.name, htree]
  · simp [Request.lists, Request.ofFlags, Stage.name, hcode]

/-- The texts, each with an end of line behind it. -/
def printed (texts : List String) : String := String.join (texts.map (· ++ "\n"))

/-- The listings that the options name, of the stages that were finished. -/
theorem exists_listings {toolkit : Toolkit} (h : toolkit.Reliable) :
    ∃ texts, ((finished e).filter fun s => flags.contains ("--" ++ s.name)).mapM Stage.render? = some texts ∧
      ∀ j : Journal, j.stages = finished e → (Request.ofFlags flags e).listings toolkit j = printed texts := by
  obtain ⟨texts, htexts⟩ := List.exists_mapM_eq_some
    (f := Stage.render?) (l := (finished e).filter fun s => flags.contains ("--" ++ s.name)) fun s hs => by
      obtain ⟨text, htext, -⟩ := render?_of_finished (List.mem_of_mem_filter hs)
      exact ⟨text, htext⟩
  refine ⟨texts, htexts, fun j hj => ?_⟩
  have hecho : ∀ text ∈ texts, toolkit.echo .output text = text ++ "\n" := by
    intro text htext
    obtain ⟨s, hs, hrender⟩ := List.exists_of_mem_mapM htexts htext
    obtain ⟨text', htext', hfree⟩ := render?_of_finished (List.mem_of_mem_filter hs)
    obtain rfl : text = text' := Option.some.inj (hrender.symm.trans htext')
    exact h.echo_escapeFree .output text hfree
  have hlists : (finished e).filter (Request.ofFlags flags e).lists =
      (finished e).filter fun s => flags.contains ("--" ++ s.name) :=
    List.filter_congr fun s hs => lists_ofFlags flags e hs
  have hmap := congrArg (List.map fun found : Option String => toolkit.echo .output (found.getD ""))
    (List.map_of_mapM_eq_some htexts)
  rw [List.map_map, List.map_map] at hmap
  rw [Request.listings, printed, hj, hlists]
  exact congrArg String.join (hmap.trans (List.map_congr_left hecho))

/-- The options of a request have no part in the result, since all of them show the source text. -/
theorem result_ofFlags :
    (calculate (Request.ofFlags flags e).options e).result = (calculate .standard e).result := by
  have hshown : ∀ err, shown (Request.ofFlags flags e).options e err = shown .standard e err := fun _ => rfl
  rw [result_calculate, result_calculate]
  simp only [hshown]

end Answer

section Toolkit

variable {toolkit : Toolkit} (h : toolkit.Reliable)

include h

/-- A command with options that name listings answers with them, and then with the result. -/
theorem exists_run_eq (files : String → FileEntry) (e : String) {flags : List String}
    (hflags : ∀ f ∈ flags, f ∈ ["--tokens", "--ast", "--bytecode"]) :
    ∃ texts, ((finished e).filter fun s => flags.contains ("--" ++ s.name)).mapM Stage.render? = some texts ∧
      run toolkit files (flags ++ ["--", e]) =
        (resultAnswer toolkit false (calculate .standard e).result).after (printed texts) "" := by
  obtain ⟨texts, htexts, hlistings⟩ := exists_listings flags e h
  refine ⟨texts, htexts, ?_⟩
  have hanswer : run toolkit files (flags ++ ["--", e]) = evaluate toolkit (.ofFlags flags e) e := by
    rw [run, h.read_flags files flags e hflags]
    rfl
  rw [hanswer, evaluate]
  simp only [result_ofFlags, hlistings _ (stages_calculate _ e)]
  rfl

/-- A complaint without escape characters, behind what was printed before it. -/
theorem complaint_after (exitCode : Nat) {text : String} (htext : EscapeFree text) (output : String) :
    (Trouble.complaint toolkit exitCode text).after output "" = ⟨exitCode, output, "", text ++ "\n"⟩ := by
  rw [Trouble.complaint, h.echo_escapeFree .errors text htext, Answer.after, String.append_empty]

end Toolkit

end CommandLine

theorem eq_outOfDomain_of_result {o : Options} {e : String} {y : Failure} (h : (calculate o e).result = .error y) :
    y = .outOfDomain := by
  obtain ⟨hout, hne⟩ := result_calculate_eq_error.mp h
  obtain ⟨family, x, heq, -, -⟩ | h := ordinary_of_outcome hout
  · exact absurd heq (hne x)
  · exact h

/-- An error brings in no escape characters besides those of its source text. -/
theorem escapeFree_render {o : Options} {e : String} {r : Result} {x : Error} (hshow : o.showSource = true)
    (hr : (calculate o e).result = .ok r) (hx : r.error? = some x) (he : EscapeFree e) : EscapeFree x.render := by
  have hends := ends_iff.mp hr
  obtain ⟨place, hplace, -⟩ := hends.anchored hx
  have hordinary : x.cause.Ordinary := ordinary_of_reports ⟨r, x, hr, hends.success_of_error? hx, hx, rfl, rfl⟩
  rw [Error.render_eq (hends.source_eq hshow hx) hplace hordinary]
  refine escapeFree_intercalate (escapeFree_of_all rfl) fun p hp => ?_
  rcases (x.forall_mem_parts (hends.quotes_message hx) hordinary (flatten e) place p hp).2 with rfl | hquotes
  · exact escapeFree_append.mpr ⟨escapeFree_of_all rfl, escapeFree_flatten he⟩
  · exact hquotes.escapeFree he

/-! ### What the command does -/

/-- The number can be printed: it is a double, or an integer within the limit on digits. -/
def Number.Printable : Number → Prop
  | .double _ => True
  | .int n => n.natAbs < 10 ^ Number.digitLimit

theorem Number.printable_iff (v : Number) : v.Printable ↔ ∃ text, v.text? = some text := by
  cases v with
  | double x => exact iff_of_true trivial ⟨x.text, rfl⟩
  | int n =>
    rw [text?, intText?]
    by_cases h : n.natAbs < 10 ^ digitLimit
    · exact iff_of_true h ⟨_, if_pos h⟩
    · refine iff_of_false h ?_
      rintro ⟨text, htext⟩
      rw [if_neg h] at htext
      cases htext

namespace CommandLine

/-- **The command agrees with the calculation.** Let the arguments be any options that name listings, in any
order, `--` and an expression. The command prints the listings that were named, of the stages that the work
on the expression finishes, in their order and each with an end of line behind it. Then it prints the value, if
the calculation gives one that can be printed, and ends with the code `0`. A value with too many digits is
refused, with the code `1`. An error goes to the other output, with the code `1`, and any other failure
with the code `3`. Nothing is printed besides. All texts but that of an error are written as they are; an
error is too, unless the expression has an escape character. -/
theorem command_agrees_with_calculation {toolkit : Toolkit} (h : toolkit.Reliable) (files : String → FileEntry)
    (e : String) {flags : List String} (hflags : ∀ f ∈ flags, f ∈ ["--tokens", "--ast", "--bytecode"]) :
    ∃ texts, ((finished e).filter fun s => flags.contains ("--" ++ s.name)).mapM Stage.render? = some texts ∧
      (∀ v, Yields .standard e v → v.Printable → ∃ text, v.text? = some text ∧
        run toolkit files (flags ++ ["--", e]) = ⟨0, printed texts ++ (text ++ "\n"), "", ""⟩) ∧
      (∀ v, Yields .standard e v → ¬ v.Printable →
        run toolkit files (flags ++ ["--", e]) =
          ⟨1, printed texts, "", "Error: result has too many digits to print\n"⟩) ∧
      (∀ r x, (calculate .standard e).result = .ok r → r.error? = some x →
        run toolkit files (flags ++ ["--", e]) = ⟨1, printed texts, "", toolkit.echo .errors x.render⟩ ∧
          (EscapeFree e → run toolkit files (flags ++ ["--", e]) = ⟨1, printed texts, "", x.render ++ "\n"⟩)) ∧
      ∀ y, (calculate .standard e).result = .error y →
        run toolkit files (flags ++ ["--", e]) = ⟨3, printed texts, "", "Internal error: " ++ y.message ++ "\n"⟩ := by
  obtain ⟨texts, htexts, hrun⟩ := exists_run_eq h files e hflags
  refine ⟨texts, htexts, ?_, ?_, ?_, ?_⟩
  · rintro v ⟨r, hr, hsuccess, hv⟩ hprintable
    obtain ⟨text, htext⟩ := v.printable_iff.mp hprintable
    refine ⟨text, htext, ?_⟩
    rw [hrun, hr]
    simp only [resultAnswer, hsuccess, if_true, hv, valueAnswer, htext, Answer.after,
      h.echo_escapeFree .output text (Number.visible_text htext).escapeFree]
  · rintro v ⟨r, hr, hsuccess, hv⟩ hprintable
    have htext : v.text? = none := by
      cases htext : v.text? with
      | none => rfl
      | some text => exact absurd (v.printable_iff.mpr ⟨text, htext⟩) hprintable
    have hmessage : "Error: " ++ "result has too many digits to print" ++ "\n" =
        "Error: result has too many digits to print\n" := by decide +kernel
    rw [hrun, hr]
    simp only [resultAnswer, hsuccess, if_true, hv, valueAnswer, htext]
    rw [← hmessage]
    exact complaint_after h 1 (escapeFree_append.mpr ⟨escapeFree_of_all rfl, escapeFree_of_all rfl⟩) _
  · intro r x hr hx
    have hanswer : run toolkit files (flags ++ ["--", e]) = (Trouble.complaint toolkit 1 x.render).after (printed texts) "" := by
      rw [hrun, hr]
      simp only [resultAnswer, (ends_iff.mp hr).success_of_error? hx, hx]
      rfl
    constructor
    · rw [hanswer, Trouble.complaint, Answer.after, String.append_empty]
    · exact fun he => hanswer.trans (complaint_after h 1 (escapeFree_render rfl hr hx he) _)
  · intro y hy
    obtain rfl : y = .outOfDomain := eq_outOfDomain_of_result hy
    rw [hrun, hy]
    exact complaint_after h 3 (escapeFree_append.mpr ⟨escapeFree_of_all rfl, escapeFree_of_all rfl⟩) _

/-! ### A toolkit for plain outputs -/

/-- The characters without the escape sequence that turns a terminal to red. -/
def withoutRed : List Char → List Char
  | '\x1b' :: '[' :: '3' :: '1' :: 'm' :: rest => withoutRed rest
  | c :: rest => c :: withoutRed rest
  | [] => []

theorem withoutRed_eq {cs : List Char} (h : '\x1b' ∉ cs) : withoutRed cs = cs := by
  induction cs using withoutRed.induct with
  | case1 rest => simp at h
  | case2 c rest hred ih =>
    rw [withoutRed.eq_2 c rest hred, ih fun hmem => h (List.mem_cons_of_mem c hmem)]
  | case3 => rfl

/-- A toolkit for outputs that are no terminals, which knows of one escape sequence. -/
def plainToolkit : Toolkit where
  read _ _ args := .ok (.ofFlags (args.takeWhile (· != "--")) (args.getLastD ""))
  echo _ text := String.ofList (withoutRed text.toList) ++ "\n"

theorem plainToolkit_reliable : plainToolkit.Reliable where
  read_flags files flags expression hflags := by
    have hends : ∀ f ∈ flags, (f != "--") = true := by
      intro f hf
      have hmem := hflags f hf
      simp only [List.mem_cons, List.not_mem_nil, or_false] at hmem
      rcases hmem with rfl | rfl | rfl <;> decide +kernel
    simp [plainToolkit, List.takeWhile_append_of_pos hends]
  echo_escapeFree channel text htext := by
    simp only [plainToolkit, withoutRed_eq htext, String.ofList_toList]

/-- With the tokens and the tree of `7+` asked for, the tokens are listed, and then the parser finds that an
operand is missing. -/
theorem command_agrees_with_calculation_parse_fault :
    run plainToolkit (fun _ => .missing) ["--ast", "--tokens", "--", "7+"] =
      ⟨1, "TOKENS:\n  NUMBER ( 7 )\n  ADD\n  END OF FILE\n", "",
        "error: Unexpected token at position <EOF>\n    7+\n      ^\n"⟩ := by
  have hflags : ∀ f ∈ ["--ast", "--tokens"], f ∈ ["--tokens", "--ast", "--bytecode"] := by simp
  have hts : Scan.tokens "7+" = .ok [.ofLexeme (.number (.int 7)) 0, .ofLexeme (.operator (.operator .add)) 1,
      .ofLexeme .endOfInput 2] := by decide +kernel
  have htree : Parse.tree [.ofLexeme (.number (.int 7)) 0, .ofLexeme (.operator (.operator .add)) 1,
      .ofLexeme .endOfInput 2] = .error ⟨.noOperand, .ofLexeme .endOfInput 2⟩ := by decide +kernel
  obtain ⟨texts, htexts, -, -, herror, -⟩ :=
    command_agrees_with_calculation plainToolkit_reliable (fun _ => .missing) "7+" hflags
  have hlisting : ((finished "7+").filter fun s => ["--ast", "--tokens"].contains ("--" ++ s.name)).mapM Stage.render? =
      some ["TOKENS:\n  NUMBER ( 7 )\n  ADD\n  END OF FILE"] := by
    simp only [finished, hts, htree]
    decide +kernel
  obtain rfl : ["TOKENS:\n  NUMBER ( 7 )\n  ADD\n  END OF FILE"] = texts := Option.some.inj (hlisting.symm.trans htexts)
  refine ((herror _ _ (result_of_parse_fault hts htree) rfl).2 (escapeFree_of_all rfl)).trans ?_
  decide +kernel

/-- There is an escape sequence before the sign of `1 + 2`. The error shows it in the source text, and a
reliable toolkit may take it out. -/
theorem command_takes_out_escapes :
    plainToolkit.Reliable ∧
      ∃ r x, (calculate .standard "1 \x1b[31m+ 2").result = .ok r ∧ r.error? = some x ∧
        (run plainToolkit (fun _ => .missing) ["--", "1 \x1b[31m+ 2"]).errorOutput ≠ x.render ++ "\n" := by
  have hts : Scan.tokens "1 \x1b[31m+ 2" = .error ⟨.strayCharacter '\x1b', 2⟩ := by decide +kernel
  have hr := result_of_scan_fault (o := .standard) hts
  obtain ⟨texts, -, hrun⟩ :=
    exists_run_eq plainToolkit_reliable (fun _ => .missing) "1 \x1b[31m+ 2" (List.forall_mem_nil _)
  refine ⟨plainToolkit_reliable, _, _, hr, rfl, ?_⟩
  rw [List.nil_append] at hrun
  rw [hrun, hr]
  show "" ++ plainToolkit.echo .errors _ ≠ _
  decide +kernel

end CommandLine

end Abacus
