/-!
# Lines

A line ends at a line feed, a carriage return, both together, a vertical tab, a
form feed, one of the separators `U+001C` to `U+001E`, a next-line mark, or a line
or paragraph separator. An end of line at the end of the text opens no new line.
-/

namespace Abacus.Text

/-- Does a line end at the character? -/
def isLineEnd (c : Char) : Bool :=
  let n := c.toNat
  (0x0A ≤ n && n ≤ 0x0D) || (0x1C ≤ n && n ≤ 0x1E) || n == 0x85 || n == 0x2028 || n == 0x2029

/-- The lines of a text, the first of which goes on from the characters `opened`,
given in reverse. -/
def linesFrom (opened : List Char) : List Char → List (List Char)
  | [] => if opened.isEmpty then [] else [opened.reverse]
  | '\r' :: '\n' :: rest => opened.reverse :: linesFrom [] rest
  | c :: rest =>
    if isLineEnd c then opened.reverse :: linesFrom [] rest
    else linesFrom (c :: opened) rest

/-- The lines of a text. -/
def lines (s : String) : List String := (linesFrom [] s.toList).map String.ofList

/-- The text with a line feed for each carriage return, alone or before a line
feed. -/
def unifyLineEnds : List Char → List Char
  | '\r' :: '\n' :: rest => '\n' :: unifyLineEnds rest
  | '\r' :: rest => '\n' :: unifyLineEnds rest
  | c :: rest => c :: unifyLineEnds rest
  | [] => []

end Abacus.Text
