import Abacus.Failure
import Abacus.Options
import Abacus.Stage

/-!
# Work with a journal

The work on a source text gives a result or a failure, and keeps a journal on the
way: the stages that were finished, and the log. What was in the journal before a
failure stays in it. Who asked for the work sees the result, what a listener was told,
and the part of the log that matters enough.
-/

namespace Abacus

/-! ### The log -/

/-- How much a log record matters. -/
inductive Level where
  | debug
  | info
  deriving DecidableEq, Repr

/-- The name of a level. -/
def Level.name : Level → String
  | debug => "DEBUG"
  | info => "INFO"

/-- Does a log that shows records from the first level on show those of the second? -/
def Level.admits : Level → Level → Bool
  | info, debug => false
  | _, _ => true

/-- Who writes to the log. -/
inductive Logger where
  | scanning
  | parsing
  | coding
  | running
  | whole
  deriving DecidableEq, Repr

/-- The name of a logger. -/
def Logger.name : Logger → String
  | scanning => "txr.lexer"
  | parsing => "txr.parser"
  | coding => "txr.lowering"
  | running => "txr.executor"
  | whole => "txr.compiler"

/-- A line of the log. -/
structure LogRecord where
  logger : Logger
  level : Level
  message : String
  deriving DecidableEq, Repr

/-! ### The journal -/

/-- What happened on the way. -/
structure Journal where
  /-- The stages that were finished, the first one first. -/
  stages : List Stage
  /-- The log, the oldest record first. -/
  log : List LogRecord
  deriving DecidableEq, Repr

namespace Journal

/-- Nothing happened. -/
def empty : Journal := ⟨[], []⟩

/-- One journal after another. -/
def append (a b : Journal) : Journal := ⟨a.stages ++ b.stages, a.log ++ b.log⟩

instance : Append Journal := ⟨append⟩

/-- The journal with one more record at its end. -/
def say (j : Journal) (logger : Logger) (message : String) : Journal :=
  ⟨j.stages, j.log ++ [⟨logger, .debug, message⟩]⟩

/-- What a listener was told. -/
def told (j : Journal) (o : Options) : List Stage := if o.tellsStages then j.stages else []

/-- The records that a log shows, if there is one, from a level on. -/
def visible (j : Journal) : Option Level → List LogRecord
  | none => []
  | some threshold => j.log.filter fun r => threshold.admits r.level

/-- The tokens that were found. -/
def tokens? (j : Journal) : Option (List Token) :=
  j.stages.findSome? fun
    | .tokens ts => some ts
    | _ => none

/-- The tree that was found. -/
def tree? (j : Journal) : Option Expr :=
  j.stages.findSome? fun
    | .tree e => some e
    | _ => none

/-- The code that was found. -/
def code? (j : Journal) : Option (List Instr) :=
  j.stages.findSome? fun
    | .code code => some code
    | _ => none

end Journal

/-! ### Work -/

/-- A result or a failure, with a journal. -/
structure Work (α : Type) where
  /-- The result. -/
  result : Except Failure α
  /-- What happened on the way. -/
  journal : Journal

/-- What can be seen of work. -/
structure Observation (α : Type) where
  /-- The result. -/
  result : Except Failure α
  /-- What a listener was told, the first stage first. -/
  events : List Stage
  /-- What the log shows, the oldest record first. -/
  log : List LogRecord

namespace Work

variable {α β : Type}

/-- A result at once. -/
def pure (a : α) : Work α := ⟨.ok a, .empty⟩

/-- Go on with a result, if there is one. -/
def bind (w : Work α) (f : α → Work β) : Work β :=
  match w.result with
  | .error failure => ⟨.error failure, w.journal⟩
  | .ok a => ⟨(f a).result, w.journal ++ (f a).journal⟩

instance : Monad Work where
  pure := pure
  bind := bind

/-- A result or a failure at once. -/
def ofExcept (result : Except Failure α) : Work α := ⟨result, .empty⟩

/-- Write a record to the log. -/
def log (logger : Logger) (level : Level) (message : String) : Work Unit :=
  ⟨.ok (), ⟨[], [⟨logger, level, message⟩]⟩⟩

/-- Note that a stage is finished. -/
def note (s : Stage) : Work Unit := ⟨.ok (), ⟨[s], []⟩⟩

/-- Write a stage to the log, if the options ask for it. -/
def logStage (o : Options) (s : Stage) : Work Unit :=
  if o.logsStages then
    match s.logMessage? with
    | some message => log .whole .info message
    | none => ofExcept (.error .tooManyDigits)
  else pure ()

/-- What can be seen of the work, given the options and the level of the log. -/
def observe (w : Work α) (o : Options) (threshold : Option Level) : Observation α :=
  ⟨w.result, w.journal.told o, w.journal.visible threshold⟩

end Work

end Abacus
