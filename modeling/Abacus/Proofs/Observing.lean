import Abacus.Proofs.Results
import Mathlib.Data.List.Basic
import Mathlib.Data.Nat.Digits.Defs

/-!
# Observing a calculation

A calculation can be watched: it hands the stages that it has finished to a listener, or writes
them to the log, and the log shows as much as one wants to see. None of this has a part in the
result. That takes a proof, for a stage is written to the log in the middle of the work, and one
with a number too long to be written would end the work there. But all that a source text gives
can be written, since no number in it has more digits than the limit.

What is seen agrees with the result: the listener is told the stages that the result holds, in
their order, and the log lists the same ones.
-/

namespace Abacus

open Calculation

/-! ### Listings -/

/-- The record that writes a stage to the log. -/
def Stage.record? (s : Stage) : Option LogRecord := s.logMessage?.map fun message => ⟨.whole, .info, message⟩

/-- All that the work on a source text finishes can be listed. -/
theorem lines?_of_finished (source : String) : ∀ s ∈ finished source, ∃ lines, s.lines? = some lines := by
  intro s hs
  obtain ⟨ts, hts, rfl | ⟨e, he, rfl | rfl⟩⟩ := mem_finished hs
  · exact lines?_tokens (Scan.tokens_eq_ok_iff.mp hts).written
  · exact lines?_tree (written_of_tree hts he)
  · exact lines?_code (written_of_tree hts he).emit

theorem logMessage?_of_finished (source : String) : ∀ s ∈ finished source, ∃ message, s.logMessage? = some message := by
  intro s hs
  obtain ⟨lines, h⟩ := lines?_of_finished source s hs
  exact ⟨_, by rw [Stage.logMessage?, h]; rfl⟩

/-- A number of a source text has a text within the limit. -/
theorem Number.Written.exists_short_text {v : Number} (h : v.Written) :
    ∃ text, v.text? = some text ∧ text.length ≤ Number.digitLimit := by
  obtain ⟨n, rfl, hn⟩ := h
  refine ⟨_, text?_int hn, ?_⟩
  rw [String.length_ofList]
  exact Nat.toDigits_length 10 n _ (by decide) hn

/-! ### The journal of a calculation -/

theorem stages_calculate (o : Options) (source : String) : (calculate o source).journal.stages = finished source := by
  simp only [isPart_stages.calculate, Work.stages_logStage, List.append_nil]
  exact List.flatMap_singleton' _

theorem isPart_visible_info : Journal.IsPart fun j => j.visible (some .info) :=
  ⟨rfl, fun _ _ => List.filter_append .., fun _ _ => rfl⟩

theorem Work.visible_logStage (o : Options) (s : Stage) :
    (Work.logStage o s).journal.visible (some .info) = if o.logsStages then s.record?.toList else [] := by
  rw [Work.logStage, Stage.record?]
  split
  · cases s.logMessage? <;> rfl
  · rfl

/-- The log lists the stages that were finished, if the options ask for that. -/
theorem visible_calculate (o : Options) (source : String) :
    (calculate o source).journal.visible (some .info) =
      if o.logsStages then (finished source).filterMap Stage.record? else [] := by
  rw [isPart_visible_info.calculate o source, List.filterMap_eq_flatMap_toList]
  simp only [Work.visible_logStage]
  split <;> simp [Work.note, Journal.visible]

/-! ### The stages of a result -/

/-- The stages that a result holds, up to the last one that was finished. -/
def Calculation.Result.stages (r : Result) : List Stage :=
  match r.tokens, r.tree with
  | [], _ => []
  | ts, none => [.tokens ts]
  | ts, some e => [.tokens ts, .tree e, .code r.code]

theorem Ends.stages_eq_finished {o : Options} {source : String} {r : Result} (h : Ends o source r) :
    r.stages = finished source := by
  have hne : ∀ {ts}, Scan.tokens source = .ok ts → ∃ t us, ts = t :: us := fun hts =>
    List.exists_cons_of_ne_nil (Scan.tokens_eq_ok_iff.mp hts).ne_nil
  cases h with
  | scanning hts => simp [Result.stages, finished, hts]
  | parsing hts he | running hts he | value hts he =>
    obtain ⟨t, us, rfl⟩ := hne hts
    simp [Result.stages, finished, hts, he]

/-- **Observation does not change a calculation.** Two calculations of a source text with options that
differ in what is reported, in having a listener or in how much the log shows have the same result. With
reports and a listener, the events are the stages that were finished, and these are the ones that the
result holds; without reports there are none. With reports and no listener, the log lists the same stages:
each of them can be listed, since every number of the text has a text within the limit on digits. -/
theorem observation_keeps_result (source : String) :
    (∀ (o o' : Options) (level level' : Option Level), o.showSource = o'.showSource →
      ((calculate o source).observe o level).result = ((calculate o' source).observe o' level').result) ∧
    (∀ (o : Options) (level : Option Level), o.verbose = true → o.listening = true →
      ((calculate o source).observe o level).events = finished source) ∧
    (∀ (o : Options) (level : Option Level) (r : Result), ((calculate o source).observe o level).result = .ok r →
      r.stages = finished source) ∧
    (∀ (o : Options) (level : Option Level), o.verbose = false →
      ((calculate o source).observe o level).events = []) ∧
    (∀ o : Options, o.verbose = true → o.listening = false →
      ((calculate o source).observe o (some .info)).log = (finished source).filterMap Stage.record?) ∧
    (∀ s ∈ finished source, ∃ message, s.logMessage? = some message) ∧
    ∀ ts, Scan.tokens source = .ok ts → ∀ t ∈ ts, ∀ v, t.lexeme = .number v →
      ∃ text, v.text? = some text ∧ text.length ≤ Number.digitLimit := by
  refine ⟨fun o o' level level' hshow => ?_, fun o level hverbose hlistening => ?_, fun o level r hr => ?_,
    fun o level hverbose => ?_, fun o hverbose hlistening => ?_, logMessage?_of_finished source,
    fun ts hts t ht v hv => ?_⟩
  · have hshown : ∀ e, shown o source e = shown o' source e := by
      intro e
      rw [shown, shown, hshow]
    simp only [Work.observe, result_calculate, hshown]
  · simp [Work.observe, Journal.told, Options.tellsStages, hverbose, hlistening, stages_calculate]
  · exact (ends_iff.mp hr).stages_eq_finished
  · simp [Work.observe, Journal.told, Options.tellsStages, hverbose]
  · simp [Work.observe, visible_calculate, Options.logsStages, hverbose, hlistening]
  · have hw := (Scan.tokens_eq_ok_iff.mp hts).written t ht
    rw [hv] at hw
    exact Number.Written.exists_short_text hw

/-- A calculation of `7+` that is watched and one that is written to the log. Both fail in the parser, so the
listener is told the tokens only, and the log lists nothing else. -/
theorem observation_keeps_result_of_parse_fault :
    ((calculate ⟨true, true, true⟩ "7+").observe ⟨true, true, true⟩ none).result =
        ((calculate ⟨true, false, true⟩ "7+").observe ⟨true, false, true⟩ (some .info)).result ∧
      ((calculate ⟨true, true, true⟩ "7+").observe ⟨true, true, true⟩ none).events =
        [.tokens [.ofLexeme (.number (.int 7)) 0, .ofLexeme (.operator (.operator .add)) 1, .ofLexeme .endOfInput 2]] ∧
      ((calculate ⟨true, false, true⟩ "7+").observe ⟨true, false, true⟩ (some .info)).log =
        [⟨.whole, .info, "TOKENS:\n  NUMBER ( 7 )\n  ADD\n  END OF FILE"⟩] := by
  obtain ⟨hresult, hevents, -, -, hlog, -⟩ := observation_keeps_result "7+"
  have hfinished : finished "7+" =
      [.tokens [.ofLexeme (.number (.int 7)) 0, .ofLexeme (.operator (.operator .add)) 1, .ofLexeme .endOfInput 2]] := by
    decide +kernel
  rw [hfinished] at hevents hlog
  exact ⟨hresult _ _ _ _ rfl, hevents _ _ rfl rfl, (hlog _ rfl rfl).trans (by decide +kernel)⟩

end Abacus
