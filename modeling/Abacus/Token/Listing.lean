import Abacus.Token.Basic

/-!
# Tokens as text

A token is listed on a line of its own, and spelled as it could stand in a source
text. Spelling every token at its offset, with spaces between, rebuilds a source
text from a list of tokens.

A number with more digits than the limit has no text, and then none of these has
a result.
-/

namespace Abacus

namespace Operator

/-- The name of an operator in listings. -/
def title : Operator → String
  | multiply => "MULTIPLY"
  | divide => "DIVIDE"
  | modulo => "MODULO"
  | floorDivide => "INTEGER DIVIDE"
  | add => "ADD"
  | subtract => "SUBTRACT"

/-- The spelling of an operator. -/
def symbol : Operator → String
  | multiply => "*"
  | divide => "/"
  | modulo => "%"
  | floorDivide => "div"
  | add => "+"
  | subtract => "-"

end Operator

/-- The name, in listings, of a value in the place of an operator. -/
def Datum.title (d : Datum) : String :=
  match d.denoted? with
  | some op => op.title
  | none => "UNKNOWN"

namespace Token

/-- The line for a token in a listing. -/
def line? (t : Token) : Option String :=
  match t.lexeme with
  | .endOfInput => some "END OF FILE"
  | .openParen => some "OPEN PAREN"
  | .closeParen => some "CLOSE PAREN"
  | .number n => n.text?.map fun value => s!"NUMBER ( {value} )"
  | .identifier name => some s!"IDENTIFIER ( {name} )"
  | .operator d => some d.title
  | .other label => some s!"UNKNOWN TOKEN {label}"

/-- The listing of a list of tokens, one line each. -/
def listing? (ts : List Token) : Option (List String) := ts.mapM line?

/-- The spelling of a token. The end of the input has none, nor has what the
language does not know. -/
def spelling? (t : Token) : Option String :=
  match t.lexeme with
  | .openParen => some "("
  | .closeParen => some ")"
  | .operator d =>
    match d.denoted? with
    | some op => some op.symbol
    | none => d.text?
  | .number n => n.text?
  | .identifier name => some name
  | .endOfInput | .other _ => some ""

/-- Spell tokens behind `written` characters, each at its offset if it is not too
late for that. -/
def rebuildFrom? (written : Nat) : List Token → Option (List Char)
  | [] => some []
  | t :: ts => do
    let gap := (t.position - written).toNat
    let spelling := (← t.spelling?).toList
    let rest ← rebuildFrom? (written + gap + spelling.length) ts
    return List.replicate gap ' ' ++ spelling ++ rest

/-- The source text that a list of tokens spells. -/
def rebuild? (ts : List Token) : Option String := (rebuildFrom? 0 ts).map String.ofList

end Token

end Abacus
