import Abacus.Datum

/-!
# Tokens

A token is a lexeme with the offset at which it starts. What stands in the place
of an operator is kept as it came, for a list of tokens can be made by hand; the
same holds of lexemes that the language does not know.
-/

namespace Abacus

/-- What a token stands for. -/
inductive Lexeme where
  /-- The end of the input. -/
  | endOfInput
  /-- An operator, or a value in its place. -/
  | operator (value : Datum)
  /-- An opening parenthesis. -/
  | openParen
  /-- A closing parenthesis. -/
  | closeParen
  /-- A number. -/
  | number (value : Number)
  /-- A name. -/
  | identifier (name : String)
  /-- Something outside the language, under a label. -/
  | other (label : String)
  deriving DecidableEq, Repr, Inhabited

/-- A lexeme at its place in the source text. -/
structure Token where
  /-- What it stands for. -/
  lexeme : Lexeme
  /-- The offset of its first character. -/
  position : Int
  /-- A value that came with a lexeme that has none of its own. It shows in the
  description of the token and nowhere else. -/
  note : Datum
  deriving DecidableEq, Repr, Inhabited

namespace Lexeme

/-- The kind of a lexeme, in the description of a token. -/
def label : Lexeme → String
  | endOfInput => "EOF"
  | operator _ => "OPERATOR"
  | openParen => "PAREN_OPEN"
  | closeParen => "PAREN_CLOSE"
  | number _ => "NUMBER"
  | identifier _ => "IDENTIFIER"
  | other label => label

/-- Does the lexeme stand in the place of an operator? -/
def isOperator : Lexeme → Bool
  | operator _ => true
  | _ => false

end Lexeme

namespace Token

/-- A lexeme at its place, with no value but its own. -/
def ofLexeme (lexeme : Lexeme) (position : Int) : Token := ⟨lexeme, position, .missing⟩

/-- Does the token end the input? -/
def isEnd (t : Token) : Bool := t.lexeme = .endOfInput

/-- The value of the token. -/
def value (t : Token) : Datum :=
  match t.lexeme with
  | .operator d => d
  | .number n => .number n
  | .identifier s => .text s
  | _ => t.note

/-- The token with its kind, its value and its position. -/
def description? (t : Token) : Option String :=
  let value? := match t.value with
    | .missing => some ""
    | d => d.subject?.map (", " ++ ·)
  value?.map fun value => s!"Token({t.lexeme.label}{value}, @{t.position})"

end Token

end Abacus
