import Abacus.Text.Blank

/-!
# Options

Three options steer the work on a source text. Two of them are flags that the
environment may set. Settings are options with values of any kind: they start from
the environment, and then named values are put in, one after the other, unread.
-/

namespace Abacus

/-- The values of environment variables. -/
abbrev Environment := String → Option String

namespace Environment

/-- The words that turn a flag on. -/
def trueWords : List String := ["1", "true", "yes", "on"]

/-- The value of a flag: on if the variable is one of the words, in either case and
with any blanks around it. The words hold ASCII letters only, and no other letter
has one of these as its lower case. -/
def flag (env : Environment) (name : String) (default : Bool) : Bool :=
  match env name with
  | none => default
  | some value => trueWords.contains (String.ofList ((Text.trim value.toList).map Char.toLower))

end Environment

/-- What steers the work on a source text. -/
structure Options where
  /-- Are the stages reported? -/
  verbose : Bool
  /-- Does a listener get the reports? Otherwise they go to the log. -/
  listening : Bool
  /-- Do errors show the source text? -/
  showSource : Bool
  deriving DecidableEq, Repr

namespace Options

/-- The options without any wish. -/
def standard : Options := ⟨false, false, true⟩

/-- Does the environment ask for reports? -/
def verboseIn (env : Environment) : Bool := env.flag "TXR_VERBOSE" false

/-- Does the environment let errors show the source text? -/
def showSourceIn (env : Environment) : Bool := env.flag "TXR_SHOW_SOURCE" true

/-- The options that the environment asks for. -/
def ofEnvironment (env : Environment) : Options := ⟨verboseIn env, false, showSourceIn env⟩

/-- Are the stages written to the log? -/
def logsStages (o : Options) : Bool := o.verbose && !o.listening

/-- Are the stages handed to a listener? -/
def tellsStages (o : Options) : Bool := o.verbose && o.listening

end Options

/-- Options with values of any kind. -/
structure Settings (α : Type) where
  verbose : α
  showSource : α
  listener : α

/-- A name that no option has. -/
structure UnknownOption where
  name : String
  deriving DecidableEq, Repr

/-- What is wrong with the name. -/
def UnknownOption.message (u : UnknownOption) : String := s!"unknown compiler option '{u.name}'"

namespace Settings

variable {α : Type}

/-- The settings that the environment asks for, given how a flag and no listener are
written. -/
def ofEnvironment (env : Environment) (ofFlag : Bool → α) (absent : α) : Settings α :=
  ⟨ofFlag (Options.verboseIn env), ofFlag (Options.showSourceIn env), absent⟩

/-- Put in a named value. The name of the way to read the environment is known too,
and has no effect. -/
def set (s : Settings α) (name : String) (value : α) : Except UnknownOption (Settings α) :=
  if name = "verbose" then .ok { s with verbose := value }
  else if name = "show_source" then .ok { s with showSource := value }
  else if name = "listener" then .ok { s with listener := value }
  else if name = "from_env" then .ok s
  else .error ⟨name⟩

/-- Put in named values, from the first to the last. -/
def setAll (s : Settings α) : List (String × α) → Except UnknownOption (Settings α)
  | [] => .ok s
  | (name, value) :: rest => do (← s.set name value).setAll rest

end Settings

end Abacus
