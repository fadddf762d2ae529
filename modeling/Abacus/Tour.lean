import Abacus.Desk

/-!
# A tour

A walk through the library on a few expressions: the value of one, its stages one by
one, the reports that a listener gets, and what a failure looks like.
-/

namespace Abacus.Tour

/-- The text of a value, or nothing. -/
def valueText (value : Option Number) : String :=
  match value with
  | some value => value.text?.getD ""
  | none => "None"

/-- The value of a run, if it has one. -/
def value? (work : Work Calculation.Result) : Option Number :=
  match work.result with
  | .ok r => r.value?
  | .error _ => none

/-- Lines under a heading, with an empty line before it. -/
def headed (heading : String) (lines : List String) : List String :=
  "" :: heading :: lines

/-- The stages of an expression, one by one. -/
def stages (source : String) : List String :=
  let journal := (Calculation.prepare .standard source).journal
  let listed (s : Stage) : List String := s.lines?.getD []
  let indented (s : Stage) : List String := (listed s).map ("  " ++ ·)
  let code := journal.code?.getD []
  journal.stages.flatMap (fun s =>
    match s with
    | .tokens _ => headed "Tokens:" (indented s)
    | .tree _ => headed "Syntax tree:" (listed s)
    | .code _ => headed "Bytecode:" (indented s)
    | .other .. => []) ++
  ["", s!"Stack machine result: {valueText (Calculation.value code).toOption}"]

/-- What a listener notes about the stages of an expression. -/
def reports (source : String) : List String :=
  let work := Calculation.calculate ⟨true, true, true⟩ source
  work.journal.stages.map (fun s => s!"[{s.name}] {(s.lines?.getD []).length} lines") ++
    ["", s!"{source} = {valueText (value? work)}"]

/-- What comes of an expression, with the last error if it fails. -/
def trial (source : String) : List String :=
  let (work, desk) := Desk.empty.addSlot.calculate 0 .standard source
  match work.result with
  | .ok r =>
    if r.success then ["", s!"{source} = {valueText r.value?}"]
    else
      let last := ((desk.last 0).map Diagnostic.text).getD "None"
      let shown := (r.error?.map Error.render).getD "None"
      ["", s!"{source} failed ({last}):", shown]
  | .error _ => []

/-- The whole tour. -/
def lines : List String :=
  let source := "2 * (5 + 5) - 1"
  let first := valueText (value? (Calculation.calculate .standard source))
  s!"{source} = {first}" :: stages source ++ reports "8 - 3 - 2" ++
    ["5 / 0", "5 mod 0", "(2 + 3", "2 & 3", "x + 1"].flatMap trial

/-- The text of the tour. -/
def text : String := String.join (lines.map (· ++ "\n"))

end Abacus.Tour
