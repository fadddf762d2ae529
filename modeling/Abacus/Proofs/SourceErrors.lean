import Abacus.Proofs.ParseFaults
import Abacus.Proofs.Remainders

/-!
# The errors of a source text

Some errors are there for things made by hand: a token that passes for an operator, a node
or an instruction outside the language, a value that no operator has, and a stack out of
balance. No source text leads to one of them. What each step gives is such that the next
one cannot meet them: the tokens of a text carry operators, the tree has code, the code
keeps the stack in balance and applies operators only.
-/

namespace Abacus

open Calculation

/-- An error that a source text can have. -/
def Cause.Ordinary : Cause → Prop
  | .strayCharacter _ | .longNumber => True
  | .noOperand | .unclosedGroup | .surplus | .tooDeep _ => True
  | .unknownName _ | .resultTooLarge _ => True
  | .noOperator | .codelessNode _ | .inapplicable _ | .foreignInstr _ | .stated .. => False

/-- The failure is an error that a source text can have in one part of the work. -/
def Failure.OrdinaryIn (family : Family) (failure : Failure) : Prop :=
  ∃ e : Error, failure = .error e ∧ e.cause.family = family ∧ e.cause.Ordinary

/-! ### The steps -/

theorem ordinary_of_tokens {source : String} {failure : Failure} (h : tokens source = .error failure) :
    failure.OrdinaryIn .scanning := by
  rw [tokens] at h
  cases hts : Scan.tokens source with
  | ok ts => rw [hts] at h; cases h
  | error fault =>
    rw [hts] at h
    cases h
    obtain ⟨cause, offset⟩ := fault
    cases cause <;> exact ⟨_, rfl, rfl, trivial⟩

/-- No token of a source text passes for an operator. -/
theorem not_counterfeit {source : String} {ts : List Token} (h : Scan.tokens source = .ok ts) {t : Token}
    (ht : t ∈ ts) : ¬ Parse.Counterfeit t := by
  rintro ⟨hop, hnone⟩
  have hw := (Scan.tokens_eq_ok_iff.mp h).written t ht
  cases hl : t.lexeme with
  | operator d =>
    rw [hl] at hw
    obtain ⟨op, rfl, -⟩ := hw
    rw [Token.value, hl] at hnone
    cases hnone
  | endOfInput | openParen | closeParen | number | identifier | other => rw [hl] at hop; cases hop

theorem ordinary_of_tree {source : String} {ts : List Token} {failure : Failure} (hts : tokens source = .ok ts)
    (h : tree ts = .error failure) : failure.OrdinaryIn .parsing := by
  rw [tree] at h
  cases he : Parse.tree ts with
  | ok e => rw [he] at h; cases h
  | error fault =>
    rw [he] at h
    cases h
    have hfounded := Parse.founded_of_tree he
    obtain ⟨cause, t⟩ := fault
    cases cause with
    | noOperator =>
      obtain ⟨hmem, hfalse⟩ := hfounded rfl
      exact absurd hfalse (not_counterfeit (calculation_tokens_eq_ok.mp hts) hmem)
    | noOperand | unclosedGroup | surplus | tooDeep => exact ⟨_, rfl, rfl, trivial⟩

theorem ordinary_of_value {e : Expr} {failure : Failure} (hw : e.Written)
    (h : value e.emit.code = .error failure) : failure.OrdinaryIn .running ∨ failure = .outOfDomain := by
  rw [value_emit hw.codable] at h
  cases hv : e.eval with
  | ok v => rw [hv] at h; cases h
  | error fault =>
    rw [hv] at h
    cases h
    obtain ⟨name, p, rfl⟩ | ⟨op, p, rfl⟩ | ⟨⟨op, p, rfl⟩, -⟩ := hw.eval_fault hv
    · exact .inl ⟨_, rfl, rfl, trivial⟩
    · exact .inl ⟨_, rfl, rfl, trivial⟩
    · exact .inr rfl

/-! ### All steps -/

theorem ordinary_of_outcome {source : String} {failure : Failure} (h : outcome source = .error failure) :
    (∃ family, failure.OrdinaryIn family) ∨ failure = .outOfDomain := by
  rw [outcome] at h
  obtain h | ⟨ts, hts, h⟩ := Except.bind_eq_error_iff.mp h
  · exact .inl ⟨_, ordinary_of_tokens h⟩
  obtain h | ⟨e, he, h⟩ := Except.bind_eq_error_iff.mp h
  · exact .inl ⟨_, ordinary_of_tree hts h⟩
  have hw := written_of_tree (calculation_tokens_eq_ok.mp hts) (calculation_tree_eq_ok.mp he)
  rw [calculation_code_eq hw.codable, Except.ok_bind] at h
  exact (ordinary_of_value hw h).imp_left fun h => ⟨_, h⟩

/-- **The errors of a source text are ordinary.** Whatever the source text and the options,
scanning, parsing and running report nothing but errors that a source text can have, each
those of its own part of the work, and every tree has code; besides, only the remainder of
an infinity can end a run. So every error in the result of a calculation is ordinary, and
the stack is never found out of balance. -/
theorem source_errors_ordinary (o : Options) (source : String) :
    (∀ failure, tokens source = .error failure → failure.OrdinaryIn .scanning) ∧
    (∀ ts failure, tokens source = .ok ts → tree ts = .error failure → failure.OrdinaryIn .parsing) ∧
    (∀ ts e, tokens source = .ok ts → tree ts = .ok e → ∃ program, code e = .ok program ∧
      ∀ failure, value program = .error failure → failure.OrdinaryIn .running ∨ failure = .outOfDomain) ∧
    (∀ cause place, Reports o source cause place → cause.Ordinary) ∧
    ∀ failure, (calculate o source).result = .error failure → failure = .outOfDomain := by
  refine ⟨fun _ => ordinary_of_tokens, fun _ _ => ordinary_of_tree, fun ts e hts he => ?_,
    fun cause place h => ?_, fun failure h => ?_⟩
  · have hw := written_of_tree (calculation_tokens_eq_ok.mp hts) (calculation_tree_eq_ok.mp he)
    exact ⟨_, calculation_code_eq hw.codable, fun _ => ordinary_of_value hw⟩
  · obtain ⟨e, hout, rfl, -⟩ := reports_iff.mp h
    obtain ⟨family, e', heq, -, hord⟩ | h := ordinary_of_outcome hout
    · cases heq
      exact hord
    · cases h
  · obtain ⟨hout, hne⟩ := result_calculate_eq_error.mp h
    obtain ⟨family, e', heq, -, -⟩ | h := ordinary_of_outcome hout
    · exact absurd heq (hne e')
    · exact h

end Abacus
