import Abacus.Desk
import Abacus.Proofs.Decoding
import Abacus.Proofs.ScanFaults
import Mathlib.Tactic.TFAE

/-!
# What a result holds

The result of a calculation is put together from the outcome of the four steps and from the
journal, which names the stages that were finished before the work ended. `Ends` says what
results there can be: one for each step that can fail, and one with a value. So the parts of a
result never contradict each other, and they tell which step failed: no tokens mean an error of
scanning, tokens without a tree an error of parsing, and where there is a tree there is code, and
only the run can have failed. The same can be told from the slot that remembers the last error.
-/

namespace Abacus

open Calculation

/-! ### The parts of a journal -/

/-- The stages that the work on a source text finishes. -/
def finished (source : String) : List Stage :=
  match Scan.tokens source with
  | .error _ => []
  | .ok ts =>
    match Parse.tree ts with
    | .error _ => [.tokens ts]
    | .ok e => [.tokens ts, .tree e, .code e.emit.code]

theorem mem_finished {source : String} {s : Stage} (h : s ∈ finished source) :
    ∃ ts, Scan.tokens source = .ok ts ∧
      (s = .tokens ts ∨ ∃ e, Parse.tree ts = .ok e ∧ (s = .tree e ∨ s = .code e.emit.code)) := by
  rw [finished] at h
  cases hts : Scan.tokens source with
  | error fault =>
    rw [hts] at h
    cases h
  | ok ts =>
    refine ⟨ts, rfl, ?_⟩
    simp only [hts] at h
    cases he : Parse.tree ts with
    | error fault =>
      simp only [he, List.mem_singleton] at h
      exact .inl h
    | ok e =>
      simp only [he, List.mem_cons, List.not_mem_nil, or_false] at h
      exact h.imp_right fun h => ⟨e, rfl, h⟩

/-- A part of what journals hold, in its order. Records for debugging do not belong to it. -/
structure Journal.IsPart {γ : Type} (part : Journal → List γ) : Prop where
  empty : part .empty = []
  append : ∀ a b : Journal, part (a ++ b) = part a ++ part b
  debug : ∀ logger message, part ⟨[], [⟨logger, .debug, message⟩]⟩ = []

namespace Journal.IsPart

variable {α β γ : Type} {part : Journal → List γ}

theorem bind (h : IsPart part) (w : Work α) (f : α → Work β) :
    part (w >>= f).journal = part w.journal ++
      match w.result with
      | .ok a => part (f a).journal
      | .error _ => [] := by
  show part (Work.bind w f).journal = _
  rw [Work.bind]
  cases w.result with
  | ok a => exact h.append ..
  | error failure => exact (List.append_nil _).symm

theorem pure (h : IsPart part) (a : α) : part (Pure.pure a : Work α).journal = [] := h.empty

theorem ofExcept (h : IsPart part) (x : Except Failure α) : part (Work.ofExcept x).journal = [] := h.empty

theorem log (h : IsPart part) (logger : Logger) (message : String) :
    part (Work.log logger .debug message).journal = [] := h.debug logger message

/-- Each stage that was finished is noted and then written to the log. -/
theorem prepare (h : IsPart part) (o : Options) (source : String) :
    part (Calculation.prepare o source).journal =
      (finished source).flatMap fun s => part (Work.note s).journal ++ part (Work.logStage o s).journal := by
  simp only [Calculation.prepare, h.bind, h.ofExcept, h.log, h.pure, Work.result_ofExcept, Work.result_log,
    Work.result_note, List.nil_append]
  rw [finished, Calculation.tokens]
  cases hts : Scan.tokens source with
  | error fault => rfl
  | ok ts =>
    have hlog := Work.result_logStage o (lines?_tokens (Scan.tokens_eq_ok_iff.mp hts).written)
    simp only [Except.mapError_ok, hlog, Calculation.tree]
    cases he : Parse.tree ts with
    | error fault => simp
    | ok e =>
      have hw := written_of_tree hts he
      simp only [Except.mapError_ok, Work.result_logStage o (lines?_tree hw), calculation_code_eq hw.codable,
        Work.result_logStage o (lines?_code hw.emit)]
      simp

/-- The run of the code adds nothing. -/
theorem work (h : IsPart part) (o : Options) (source : String) :
    part (do carryOut (← Calculation.prepare o source) : Work Number).journal =
      (finished source).flatMap fun s => part (Work.note s).journal ++ part (Work.logStage o s).journal := by
  have hcarry : ∀ program, part (carryOut program).journal = [] := by
    intro program
    simp only [carryOut, h.bind, h.ofExcept, h.log, h.pure, Work.result_ofExcept, Work.result_log, List.nil_append]
    cases value program <;> rfl
  rw [h.bind, h.prepare]
  split
  · rw [hcarry, List.append_nil]
  · exact List.append_nil _

theorem say (h : IsPart part) (j : Journal) (logger : Logger) (message : String) :
    part (j.say logger message) = part j := by
  have hsay : j.say logger message = j ++ ⟨[], [⟨logger, .debug, message⟩]⟩ := by
    show Journal.mk j.stages _ = ⟨j.stages ++ [], _⟩
    rw [List.append_nil]
  rw [hsay, h.append, h.debug, List.append_nil]

/-- Nor does the last word. -/
theorem calculate (h : IsPart part) (o : Options) (source : String) :
    part (Calculation.calculate o source).journal =
      (finished source).flatMap fun s => part (Work.note s).journal ++ part (Work.logStage o s).journal := by
  rw [Calculation.calculate]
  dsimp only
  split <;> simp only [h.say, h.work]

end Journal.IsPart

theorem isPart_stages : Journal.IsPart Journal.stages := ⟨rfl, fun _ _ => rfl, fun _ _ => rfl⟩

/-- What is written to the log is no stage. -/
theorem Work.stages_logStage (o : Options) (s : Stage) : (Work.logStage o s).journal.stages = [] := by
  rw [Work.logStage]
  split
  · split <;> rfl
  · rfl

/-- The journal holds the stages that were finished, whatever the options. -/
theorem stages_work (o : Options) (source : String) :
    (do carryOut (← prepare o source) : Work Number).journal.stages = finished source := by
  simp only [isPart_stages.work, Work.stages_logStage, List.append_nil]
  exact List.flatMap_singleton' _

/-! ### How a calculation ends -/

/-- The error as a result shows it: with the source text, if the options ask for that. -/
def shown (o : Options) (source : String) (e : Error) : Error := if o.showSource then e.attach source else e

@[simp] theorem shown_cause (o : Options) (source : String) (e : Error) : (shown o source e).cause = e.cause := by
  rw [shown]
  split <;> rfl

/-- `Ends o source r`: the calculation can end with the result `r`. -/
inductive Ends (o : Options) (source : String) : Result → Prop where
  /-- The text cannot be scanned. -/
  | scanning {fault : Scan.Fault} : Scan.tokens source = .error fault →
      Ends o source ⟨source, false, none, some (shown o source (.ofScan (some source) fault)), [], none, []⟩
  /-- The tokens have no tree. -/
  | parsing {ts : List Token} {fault : Parse.Fault} : Scan.tokens source = .ok ts → Parse.tree ts = .error fault →
      Ends o source ⟨source, false, none, some (shown o source (.ofParse fault)), ts, none, []⟩
  /-- The tree has no value, which is an error of the language. -/
  | running {ts : List Token} {e : Expr} {fault : Machine.Fault} {err : Error} : Scan.tokens source = .ok ts →
      Parse.tree ts = .ok e → e.eval = .error fault → Failure.ofMachine fault = .error err →
      Ends o source ⟨source, false, none, some (shown o source err), ts, some e, e.emit.code⟩
  /-- The tree has a value. -/
  | value {ts : List Token} {e : Expr} {v : Number} : Scan.tokens source = .ok ts → Parse.tree ts = .ok e →
      e.eval = .ok v → Ends o source ⟨source, true, some v, none, ts, some e, e.emit.code⟩

/-- The result of a calculation, from its outcome and the stages that it finished. -/
theorem result_calculate (o : Options) (source : String) :
    (calculate o source).result =
      match outcome source with
      | .ok v => .ok ((Result.ofJournal source ⟨finished source, []⟩).succeed v)
      | .error (.error e) => .ok ((Result.ofJournal source ⟨finished source, []⟩).fail (shown o source e))
      | .error failure => .error failure := by
  have hstages (j : Journal) (hj : j.stages = finished source) (message : String) :
      Result.ofJournal source (j.say .whole message) = .ofJournal source ⟨finished source, []⟩ := by
    rw [← hj]
    rfl
  rw [calculate]
  simp only [result_work]
  cases outcome source with
  | ok v => simp only [hstages _ (stages_work o source)]
  | error failure =>
    cases failure with
    | error e => simp only [hstages _ (stages_work o source), shown]
    | stackMisuse | outOfDomain | floorOfNan | tooManyDigits | missingPart => rfl

section Steps

variable {o : Options} {source : String} {ts : List Token}

theorem outcome_of_scan_fault {fault : Scan.Fault} (h : Scan.tokens source = .error fault) :
    outcome source = .error (.error (.ofScan (some source) fault)) := by
  rw [outcome, Calculation.tokens, h]
  rfl

theorem result_of_scan_fault {fault : Scan.Fault} (hts : Scan.tokens source = .error fault) :
    (calculate o source).result =
      .ok ⟨source, false, none, some (shown o source (.ofScan (some source) fault)), [], none, []⟩ := by
  rw [result_calculate]
  simp only [outcome_of_scan_fault hts, finished, hts]
  rfl

theorem result_of_parse_fault {fault : Parse.Fault} (hts : Scan.tokens source = .ok ts)
    (he : Parse.tree ts = .error fault) :
    (calculate o source).result = .ok ⟨source, false, none, some (shown o source (.ofParse fault)), ts, none, []⟩ := by
  rw [result_calculate]
  simp only [outcome_of_fault hts he, finished, hts, he]
  rfl

theorem result_of_eval_fault {e : Expr} {fault : Machine.Fault} (hts : Scan.tokens source = .ok ts)
    (he : Parse.tree ts = .ok e) (hv : e.eval = .error fault) :
    (calculate o source).result =
      match Failure.ofMachine fault with
      | .error err => .ok ⟨source, false, none, some (shown o source err), ts, some e, e.emit.code⟩
      | failure => .error failure := by
  rw [result_calculate]
  simp only [outcome_of_tree hts he, finished, hts, he, hv, Except.mapError_error]
  cases Failure.ofMachine fault <;> rfl

theorem result_of_eval {e : Expr} {v : Number} (hts : Scan.tokens source = .ok ts) (he : Parse.tree ts = .ok e)
    (hv : e.eval = .ok v) :
    (calculate o source).result = .ok ⟨source, true, some v, none, ts, some e, e.emit.code⟩ := by
  rw [result_calculate]
  simp only [outcome_of_tree hts he, finished, hts, he, hv]
  rfl

/-- A calculation that gives a result ends in one of these ways. -/
theorem ends_iff {r : Result} : (calculate o source).result = .ok r ↔ Ends o source r := by
  constructor
  · intro h
    cases hts : Scan.tokens source with
    | error fault =>
      rw [result_of_scan_fault hts] at h
      cases h
      exact .scanning hts
    | ok ts =>
      cases he : Parse.tree ts with
      | error fault =>
        rw [result_of_parse_fault hts he] at h
        cases h
        exact .parsing hts he
      | ok e =>
        cases hv : e.eval with
        | ok v =>
          rw [result_of_eval hts he hv] at h
          cases h
          exact .value hts he hv
        | error fault =>
          rw [result_of_eval_fault hts he hv] at h
          split at h
          · rename_i err hf
            cases h
            exact .running hts he hv hf
          · cases h
  · intro h
    cases h with
    | scanning hts => exact result_of_scan_fault hts
    | parsing hts he => exact result_of_parse_fault hts he
    | running hts he hv hf => rw [result_of_eval_fault hts he hv, hf]
    | value hts he hv => exact result_of_eval hts he hv

end Steps

/-! ### The parts of a result -/

namespace Calculation.Result

theorem diagnostic_of_error? {r : Result} {e : Error} (h : r.error? = some e) :
    r.diagnostic = some ⟨e.message, e.position⟩ := by
  rw [diagnostic, h]
  rfl

/-- The result has an error that belongs in this part of the work. -/
def FailsIn (r : Result) (family : Family) : Prop := ∃ e, r.error? = some e ∧ e.cause.family = family

@[simp] theorem failsIn_shown (o : Options) (source : String) (err : Error) (success : Bool) (value? : Option Number)
    (ts : List Token) (tree : Option Expr) (code : List Instr) (family : Family) :
    FailsIn ⟨source, success, value?, some (shown o source err), ts, tree, code⟩ family ↔ err.cause.family = family := by
  simp [FailsIn]

@[simp] theorem not_failsIn_none (source : String) (success : Bool) (value? : Option Number) (ts : List Token)
    (tree : Option Expr) (code : List Instr) (family : Family) :
    ¬ FailsIn ⟨source, success, value?, none, ts, tree, code⟩ family := by
  simp [FailsIn]

end Calculation.Result

@[simp] theorem family_ofScan (source : Option String) (fault : Scan.Fault) :
    (Error.ofScan source fault).cause.family = .scanning := by
  obtain ⟨cause, offset⟩ := fault
  cases cause <;> rfl

@[simp] theorem family_ofParse (fault : Parse.Fault) : (Error.ofParse fault).cause.family = .parsing := by
  obtain ⟨cause, token⟩ := fault
  cases cause <;> rfl

theorem family_ofMachine {fault : Machine.Fault} {err : Error} (h : Failure.ofMachine fault = .error err) :
    err.cause.family = .running := by
  obtain ⟨name, p, -, rfl⟩ | ⟨value, p, text, -, rfl⟩ | ⟨value, p, text, -, rfl⟩ | ⟨object, -, rfl⟩ :=
    Failure.ofMachine_eq_error h <;> rfl

section Ends

variable {o : Options} {source : String} {r : Result}

/-- Success, no error, a value and nothing to remember come together. -/
theorem Ends.tfae_success (h : Ends o source r) :
    List.TFAE [r.success = true, r.error? = none, r.value? ≠ none, r.diagnostic = none] := by
  cases h with
  | scanning | parsing | running =>
    apply List.tfae_of_forall False
    simp [Result.diagnostic]
  | value =>
    apply List.tfae_of_forall True
    simp [Result.diagnostic]

/-- With an error there is no success. -/
theorem Ends.success_of_error? (h : Ends o source r) {e : Error} (he : r.error? = some e) : r.success = false := by
  cases h with
  | scanning | parsing | running => rfl
  | value => cases he

/-- An error of scanning and no tokens are the same. -/
theorem Ends.failsIn_scanning_iff (h : Ends o source r) : r.FailsIn .scanning ↔ r.tokens = [] := by
  cases h with
  | scanning => simp
  | parsing hts => simp [(Scan.tokens_eq_ok_iff.mp hts).ne_nil]
  | running hts _ _ hf => simp [family_ofMachine hf, (Scan.tokens_eq_ok_iff.mp hts).ne_nil]
  | value hts => simp [(Scan.tokens_eq_ok_iff.mp hts).ne_nil]

/-- So are an error of parsing and tokens without a tree. -/
theorem Ends.failsIn_parsing_iff (h : Ends o source r) :
    r.FailsIn .parsing ↔ r.tokens ≠ [] ∧ r.tree = none := by
  cases h with
  | scanning => simp
  | parsing hts => simp [(Scan.tokens_eq_ok_iff.mp hts).ne_nil]
  | running _ _ _ hf => simp [family_ofMachine hf]
  | value => simp

/-- Otherwise all three stages are there, each from the one before, and only the run can have
failed. -/
theorem Ends.stages (h : Ends o source r) (hscan : ¬ r.FailsIn .scanning) (hparse : ¬ r.FailsIn .parsing) :
    Scan.tokens source = .ok r.tokens ∧
      (∃ e, r.tree = some e ∧ Parse.tree r.tokens = .ok e ∧ e.code = .ok r.code) ∧ r.code ≠ [] ∧
      ∀ err, r.error? = some err → err.cause.family = .running := by
  have hcode : ∀ {ts e}, Scan.tokens source = .ok ts → Parse.tree ts = .ok e →
      e.code = .ok e.emit.code ∧ e.emit.code ≠ [] := by
    intro ts e hts he
    have hcodable := (written_of_tree hts he).codable
    exact ⟨hcodable.code_eq, by rw [hcodable.emit_eq]; simp⟩
  cases h with
  | scanning => simp at hscan
  | parsing => simp at hparse
  | running hts he _ hf =>
    refine ⟨hts, ⟨_, rfl, he, (hcode hts he).1⟩, (hcode hts he).2, ?_⟩
    rintro _ ⟨⟩
    rw [shown_cause]
    exact family_ofMachine hf
  | value hts he => exact ⟨hts, ⟨_, rfl, he, (hcode hts he).1⟩, (hcode hts he).2, by simp⟩

/-- An error of scanning comes before all others. -/
theorem Ends.failsIn_of_faultyAt (h : Ends o source r) {i : Nat} (hi : Scan.FaultyAt source.toList i) :
    r.FailsIn .scanning := by
  obtain ⟨fault, hfault⟩ := Scan.exists_tokens_eq_error_iff.mpr ⟨i, hi⟩
  cases h with
  | scanning => simp
  | parsing hts | running hts | value hts =>
    rw [hfault] at hts
    cases hts

end Ends

/-! ### The last error -/

namespace Desk

theorem fst_calculate (d : Desk) (slot : Nat) (o : Options) (source : String) :
    (d.calculate slot o source).1 = Calculation.calculate o source := by
  rw [calculate]
  split <;> rfl

/-- The slot of a calculation remembers its result, and nothing of what it held before. -/
theorem last_calculate {d : Desk} {slot : Nat} (hslot : slot < d.slots.length) {o : Options} {source : String}
    {r : Result} (h : (d.calculate slot o source).1.result = .ok r) :
    (d.calculate slot o source).2.last slot = r.diagnostic := by
  rw [fst_calculate] at h
  rw [calculate]
  cases he : r.error? with
  | none => simp [h, he, last, clear, hslot, Result.diagnostic]
  | some e => simp [h, he, last, clear, record, hslot, Result.diagnostic]

end Desk

/-- **A result tells which step failed.** Let a calculation on a slot of the desk end with a result,
whatever the slot remembered before. It succeeds exactly if it has no error, or has a value, or
leaves the slot clear; an error leaves its message and its place in the slot, and the result has
them as its diagnostic. The error is one of scanning exactly if there are no tokens, and one of
parsing exactly if there are tokens and no tree. In all other cases the tokens, the tree and the
code, which is not empty, are those of the text, and an error is one of the run. A text at fault
at any offset gives an error of scanning, whatever else is wrong with it. -/
theorem result_tells_failed_step {d : Desk} {slot : Nat} (hslot : slot < d.slots.length) {o : Options}
    {source : String} {r : Result} (h : (d.calculate slot o source).1.result = .ok r) :
    List.TFAE [r.success = true, r.error? = none, r.value? ≠ none, (d.calculate slot o source).2.last slot = none] ∧
    (∀ e, r.error? = some e → (d.calculate slot o source).2.last slot = some ⟨e.message, e.position⟩ ∧
      r.diagnostic = some ⟨e.message, e.position⟩) ∧
    (r.FailsIn .scanning ↔ r.tokens = []) ∧
    (r.FailsIn .parsing ↔ r.tokens ≠ [] ∧ r.tree = none) ∧
    (¬ r.FailsIn .scanning → ¬ r.FailsIn .parsing →
      Scan.tokens source = .ok r.tokens ∧
      (∃ e, r.tree = some e ∧ Parse.tree r.tokens = .ok e ∧ e.code = .ok r.code) ∧ r.code ≠ [] ∧
      ∀ e, r.error? = some e → e.cause.family = .running) ∧
    ∀ i, Scan.FaultyAt source.toList i → r.FailsIn .scanning := by
  have hlast := Desk.last_calculate hslot h
  have hends : Ends o source r := by
    rw [Desk.fst_calculate] at h
    exact ends_iff.mp h
  rw [hlast]
  exact ⟨hends.tfae_success, fun e he => ⟨Result.diagnostic_of_error? he, Result.diagnostic_of_error? he⟩,
    hends.failsIn_scanning_iff, hends.failsIn_parsing_iff, hends.stages, fun i hi => hends.failsIn_of_faultyAt hi⟩

/-- A calculation of `(2 @`, on a slot that remembers something else: the stray character hides that
the group is not closed. -/
theorem result_tells_failed_step_stray_character :
    ∃ r, (Desk.calculate ⟨[none, some ⟨"Trailing data", none⟩]⟩ 1 .standard "(2 @").1.result = .ok r ∧
      r.tokens = [] ∧ r.FailsIn .scanning ∧
      (Desk.calculate ⟨[none, some ⟨"Trailing data", none⟩]⟩ 1 .standard "(2 @").2.last 1 =
        some ⟨"Unexpected character \"@\"", some (.ofOffset 3)⟩ := by
  have hts : Scan.tokens "(2 @" = .error ⟨.strayCharacter '@', 3⟩ := by decide +kernel
  have h : (Desk.calculate ⟨[none, some ⟨"Trailing data", none⟩]⟩ 1 .standard "(2 @").1.result =
      .ok ⟨"(2 @", false, none, some (shown .standard "(2 @" (.ofScan (some "(2 @") ⟨.strayCharacter '@', 3⟩)), [], none,
        []⟩ := by
    rw [Desk.fst_calculate]
    exact ends_iff.mpr (.scanning hts)
  obtain ⟨-, hlast, hscan, -⟩ := result_tells_failed_step (by simp) h
  exact ⟨_, h, rfl, hscan.mpr rfl, (hlast _ rfl).1⟩

end Abacus
