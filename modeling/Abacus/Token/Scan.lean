import Abacus.Text.Blank
import Abacus.Text.Digits
import Abacus.Token.Basic

/-!
# Scanning

A source text is cut into tokens from left to right. Blanks separate tokens and
give none. A row of digits is a number, a row of letters, digits and underscores
that does not start with a digit is a name, and each of the other lexemes is one
character. A row is as long as it can be. Letters and digits are those of ASCII.

Scanning stops at a character that starts no lexeme, and at a number with more
digits than the limit. The end of the text gives a token of its own.
-/

namespace Abacus

namespace Lexeme

/-- The operator that a character writes. -/
def ofSymbol? : Char → Option Operator
  | '+' => some .add
  | '-' => some .subtract
  | '*' => some .multiply
  | '/' => some .divide
  | '%' => some .modulo
  | _ => none

/-- The operator that a name writes. -/
def ofWord? (name : String) : Option Operator :=
  if name = "mod" then some .modulo
  else if name = "div" then some .divide
  else none

/-- Can the character start a name? -/
def startsName (c : Char) : Bool := c.isAlpha || c == '_'

/-- Can the character stand inside a name? -/
def continuesName (c : Char) : Bool := c.isAlphanum || c == '_'

/-- What a name stands for: an operator if it is a reserved word. -/
def ofName (name : String) : Lexeme :=
  match ofWord? name with
  | some op => .operator (.operator op)
  | none => .identifier name

end Lexeme

namespace Scan

/-- Why scanning stops. -/
inductive Cause where
  /-- The character starts no lexeme. -/
  | strayCharacter (c : Char)
  /-- The number has more digits than the limit. -/
  | longNumber
  deriving DecidableEq, Repr

/-- Why scanning stopped, and at which offset. -/
structure Fault where
  /-- What is wrong. -/
  cause : Cause
  /-- The offset of the character, or of the first digit. -/
  offset : Nat
  deriving DecidableEq, Repr

/-- What the front of a text gives: how many characters beyond the first it takes,
and the lexeme or the fault. -/
structure Cut where
  /-- The number of characters beyond the first. -/
  more : Nat
  /-- The lexeme, unless the front of the text is at fault. -/
  lexeme : Except Cause Lexeme

/-- Cut the text `c :: rest`, of which `c` is not blank. -/
def cut (c : Char) (rest : List Char) : Cut :=
  if c = '(' then ⟨0, .ok .openParen⟩
  else if c = ')' then ⟨0, .ok .closeParen⟩
  else match Lexeme.ofSymbol? c with
    | some op => ⟨0, .ok (.operator (.operator op))⟩
    | none =>
      if c.isDigit then
        let more := rest.takeWhile Char.isDigit
        if more.length < Number.digitLimit then
          ⟨more.length, .ok (.number (.int (Text.natOfDigits (c :: more))))⟩
        else ⟨more.length, .error .longNumber⟩
      else if Lexeme.startsName c then
        let more := rest.takeWhile Lexeme.continuesName
        ⟨more.length, .ok (Lexeme.ofName (String.ofList (c :: more)))⟩
      else ⟨0, .error (.strayCharacter c)⟩

/-- The tokens of a text that starts at an offset, when its first `skip` characters
belong to the token before. -/
def tokensFrom (skip offset : Nat) : List Char → Except Fault (List Token)
  | [] => .ok [.ofLexeme .endOfInput offset]
  | c :: rest =>
    match skip with
    | skip + 1 => tokensFrom skip (offset + 1) rest
    | 0 =>
      if Text.isBlank c then tokensFrom 0 (offset + 1) rest
      else
        let first := cut c rest
        match first.lexeme with
        | .error cause => .error ⟨cause, offset⟩
        | .ok lexeme => do
          let tokens ← tokensFrom first.more (offset + 1) rest
          return .ofLexeme lexeme offset :: tokens

/-- The tokens of a text. -/
def tokens (source : String) : Except Fault (List Token) := tokensFrom 0 0 source.toList

end Scan

/-! ### Scanning token by token -/

/-- A scan that hands out one token at a time. -/
structure Scanner where
  /-- The whole text. -/
  source : String
  /-- How many characters have been taken. -/
  offset : Nat
  /-- Has the current stream of tokens not yet ended? -/
  live : Bool

namespace Scanner

/-- A scan at the start of a text, with no stream of tokens yet. -/
def ofSource (source : String) : Scanner := ⟨source, 0, false⟩

/-- Start a new stream of tokens where the scan stands. -/
def stream (s : Scanner) : Scanner := { s with live := true }

/-- The next token of the stream, if it has not ended. A fault ends it, and so does
the token at the end of the input. -/
def next (s : Scanner) : Except Scan.Fault (Option Token) × Scanner :=
  if s.live then
    let rest := s.source.toList.drop s.offset
    let blanks := (rest.takeWhile Text.isBlank).length
    let start := s.offset + blanks
    match rest.drop blanks with
    | [] => (.ok (some (.ofLexeme .endOfInput start)), ⟨s.source, start, false⟩)
    | c :: rest =>
      let first := Scan.cut c rest
      let stop := start + 1 + first.more
      match first.lexeme with
      | .error cause => (.error ⟨cause, start⟩, ⟨s.source, stop, false⟩)
      | .ok lexeme => (.ok (some (.ofLexeme lexeme start)), ⟨s.source, stop, true⟩)
  else (.ok none, s)

end Scanner

end Abacus
