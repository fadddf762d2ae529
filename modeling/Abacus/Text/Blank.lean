/-!
# Blank characters

The characters that separate words: the white space of Unicode, and the four
information separators `U+001C` to `U+001F`.
-/

namespace Abacus.Text

/-- Does the character only separate words? -/
def isBlank (c : Char) : Bool :=
  let n := c.toNat
  (0x09 ≤ n && n ≤ 0x0D) || (0x1C ≤ n && n ≤ 0x20) || n == 0x85 || n == 0xA0 || n == 0x1680 ||
    (0x2000 ≤ n && n ≤ 0x200A) || n == 0x2028 || n == 0x2029 || n == 0x202F || n == 0x205F ||
    n == 0x3000

/-- The text without the blanks at its ends. -/
def trim (s : List Char) : List Char :=
  ((s.dropWhile isBlank).reverse.dropWhile isBlank).reverse

/-- The text with a space for every blank: each character keeps its column. -/
def flatten (s : String) : String :=
  String.ofList (s.toList.map fun c => if isBlank c then ' ' else c)

end Abacus.Text
