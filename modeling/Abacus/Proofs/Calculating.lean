import Abacus.Proofs.SourceTrees

/-!
# The result of a calculation

A calculation keeps a journal while it works, and writes finished stages to the log when
the options ask for that. A stage that cannot be written would end the work. What comes
from a source text can always be written, so the journal and the options have no part in
the result: it is that of the four steps one after another, and for a text with a tree
it is the value of the tree.
-/

namespace Abacus

open Calculation

/-! ### Results of work -/

namespace Work

variable {α β : Type}

@[simp] theorem result_bind (w : Work α) (f : α → Work β) :
    (w >>= f).result = w.result >>= fun a => (f a).result := by
  show (Work.bind w f).result = _
  rw [Work.bind]
  cases w.result <;> rfl

@[simp] theorem result_pure (a : α) : (Pure.pure a : Work α).result = .ok a := rfl

@[simp] theorem result_ofExcept (x : Except Failure α) : (Work.ofExcept x).result = x := rfl

@[simp] theorem result_log (logger : Logger) (level : Level) (message : String) :
    (Work.log logger level message).result = .ok () := rfl

@[simp] theorem result_note (s : Stage) : (Work.note s).result = .ok () := rfl

/-- A stage that can be listed can be logged. -/
theorem result_logStage (o : Options) {s : Stage} (h : ∃ lines, s.lines? = some lines) :
    (Work.logStage o s).result = .ok () := by
  obtain ⟨lines, h⟩ := h
  rw [Work.logStage, Stage.logMessage?, h]
  split <;> rfl

end Work

/-! ### The steps -/

theorem calculation_tokens_eq_ok {source : String} {ts : List Token} :
    Calculation.tokens source = .ok ts ↔ Scan.tokens source = .ok ts := by
  rw [Calculation.tokens]
  cases Scan.tokens source <;> simp

theorem calculation_tree_eq_ok {ts : List Token} {e : Expr} :
    Calculation.tree ts = .ok e ↔ Parse.tree ts = .ok e := by
  rw [Calculation.tree]
  cases Parse.tree ts <;> simp

theorem calculation_code_eq {e : Expr} (h : e.Codable) : Calculation.code e = .ok e.emit.code := by
  rw [Calculation.code, h.code_eq]
  rfl

/-- The code of a source text does not depend on the options. -/
theorem result_prepare (o : Options) (source : String) :
    (prepare o source).result = (do code (← tree (← tokens source))) := by
  simp only [prepare, Work.result_bind, Work.result_ofExcept, Work.result_log, Work.result_note, Except.ok_bind,
    Work.result_pure]
  cases hts : tokens source with
  | error failure => rfl
  | ok ts =>
    have hscan := calculation_tokens_eq_ok.mp hts
    simp only [Except.ok_bind, Work.result_logStage o (lines?_tokens (Scan.tokens_eq_ok_iff.mp hscan).written)]
    cases he : tree ts with
    | error failure => rfl
    | ok e =>
      have hw := written_of_tree hscan (calculation_tree_eq_ok.mp he)
      simp only [Except.ok_bind, Work.result_logStage o (lines?_tree hw), calculation_code_eq hw.codable,
        Work.result_logStage o (lines?_code hw.emit)]

theorem result_carryOut (program : List Instr) : (carryOut program).result = value program := by
  simp only [carryOut, Work.result_bind, Work.result_ofExcept, Work.result_log, Except.ok_bind, Work.result_pure]
  exact bind_pure _

/-! ### All steps -/

/-- What the four steps give, one after another. -/
def outcome (source : String) : Except Failure Number := do
  value (← code (← tree (← tokens source)))

/-- The outcome of a text with a tree is the value of the tree. -/
theorem outcome_of_tree {source : String} {ts : List Token} {e : Expr} (hts : Scan.tokens source = .ok ts)
    (he : Parse.tree ts = .ok e) : outcome source = e.eval.mapError .ofMachine := by
  have hcodable := (written_of_tree hts he).codable
  rw [outcome, calculation_tokens_eq_ok.mpr hts, Except.ok_bind, calculation_tree_eq_ok.mpr he, Except.ok_bind,
    calculation_code_eq hcodable, Except.ok_bind, value_emit hcodable]

theorem outcome_of_fault {source : String} {ts : List Token} {fault : Parse.Fault} (hts : Scan.tokens source = .ok ts)
    (h : Parse.tree ts = .error fault) : outcome source = .error (.error (.ofParse fault)) := by
  rw [outcome, calculation_tokens_eq_ok.mpr hts, Except.ok_bind, tree, h]
  rfl

/-- A text without a tree is an error of the language. -/
theorem outcome_cases (source : String) :
    (∃ err : Error, outcome source = .error (.error err)) ∨
      ∃ ts e, Scan.tokens source = .ok ts ∧ Parse.tree ts = .ok e := by
  rw [outcome, tokens]
  cases hts : Scan.tokens source with
  | error fault => exact .inl ⟨_, rfl⟩
  | ok ts =>
    rw [Except.mapError_ok, Except.ok_bind, tree]
    cases he : Parse.tree ts with
    | error fault => exact .inl ⟨_, rfl⟩
    | ok e => exact .inr ⟨ts, e, rfl, he⟩

theorem result_work (o : Options) (source : String) :
    (do carryOut (← prepare o source) : Work Number).result = outcome source := by
  simp only [Work.result_bind, result_prepare, result_carryOut, outcome, bind_assoc]

/-- A calculation fails when the steps do, with something that is no error of the language. -/
theorem result_calculate_eq_error {o : Options} {source : String} {failure : Failure} :
    (calculate o source).result = .error failure ↔
      outcome source = .error failure ∧ ∀ e, failure ≠ .error e := by
  rw [calculate]
  simp only [result_work]
  cases outcome source with
  | ok v => simp
  | error f =>
    cases f with
    | error e =>
      simp only [reduceCtorEq, false_iff, not_and]
      rintro h hne
      cases h
      exact hne e rfl
    | stackMisuse | outOfDomain | floorOfNan | tooManyDigits | missingPart =>
      simp only [Except.error.injEq, iff_self_and]
      rintro rfl e ⟨⟩

/-! ### What comes of a source text -/

/-- The calculation gives a value. -/
def Calculation.Yields (o : Options) (source : String) (v : Number) : Prop :=
  ∃ r, (calculate o source).result = .ok r ∧ r.success = true ∧ r.value? = some v

/-- The calculation ends with an error of the language, which has this cause and this place. -/
def Calculation.Reports (o : Options) (source : String) (cause : Cause) (place : Option Place) : Prop :=
  ∃ r e, (calculate o source).result = .ok r ∧ r.success = false ∧ r.error? = some e ∧ e.cause = cause ∧
    e.position = place

theorem yields_iff {o : Options} {source : String} {v : Number} :
    Yields o source v ↔ outcome source = .ok v := by
  rw [Yields, calculate]
  simp only [result_work]
  cases outcome source with
  | ok v' => simp [Result.succeed]
  | error f => cases f <;> simp [Result.ofJournal, Result.fail]

/-- The source text, which the options may attach to an error, is no part of its cause or its
place. -/
theorem reports_iff {o : Options} {source : String} {cause : Cause} {place : Option Place} :
    Reports o source cause place ↔
      ∃ e : Error, outcome source = .error (.error e) ∧ e.cause = cause ∧ e.position = place := by
  rw [Reports, calculate]
  simp only [result_work]
  cases outcome source with
  | ok v => simp [Result.succeed]
  | error f =>
    cases f with
    | error e =>
      have hattach : (if o.showSource then e.attach source else e).cause = e.cause ∧
          (if o.showSource then e.attach source else e).position = e.position := by
        split <;> exact ⟨rfl, rfl⟩
      simp [Result.ofJournal, Result.fail, hattach]
    | stackMisuse | outOfDomain | floorOfNan | tooManyDigits | missingPart => simp

end Abacus
