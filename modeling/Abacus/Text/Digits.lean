/-!
# Digits

A row of decimal digits, read as a natural number.
-/

namespace Abacus.Text

/-- The value of a decimal digit. -/
def digitValue (c : Char) : Nat := c.toNat - '0'.toNat

/-- The natural that a row of digits writes, zeros at the front included. -/
def natOfDigits (digits : List Char) : Nat :=
  digits.foldl (fun n c => 10 * n + digitValue c) 0

end Abacus.Text
