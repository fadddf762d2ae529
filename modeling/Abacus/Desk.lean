import Abacus.Calculation

/-!
# The last errors

Several users of the calculator can each remember their last error, or share the
memory. A desk holds the memories in numbered slots. A calculation on a slot first
clears it, and records the error if there is one.
-/

namespace Abacus

/-- The last errors, in numbered slots. -/
structure Desk where
  /-- What each slot remembers. -/
  slots : List (Option Diagnostic)

namespace Desk

/-- A desk without slots. -/
def empty : Desk := ⟨[]⟩

/-- Add a clear slot; its number is the number of slots before. -/
def addSlot (d : Desk) : Desk := ⟨d.slots ++ [none]⟩

/-- The last error of a slot. -/
def last (d : Desk) (slot : Nat) : Option Diagnostic := (d.slots[slot]?).join

/-- Forget the last error of a slot. -/
def clear (d : Desk) (slot : Nat) : Desk := ⟨d.slots.set slot none⟩

/-- Remember an error in a slot. -/
def record (d : Desk) (slot : Nat) (e : Error) : Desk := ⟨d.slots.set slot (some e.diagnostic)⟩

/-- The value of a source text, or what is wrong with it, with a slot for the error. -/
def calculate (d : Desk) (slot : Nat) (o : Options) (source : String) :
    Work Calculation.Result × Desk :=
  let cleared := d.clear slot
  let work := Calculation.calculate o source
  match work.result with
  | .ok r => (work, (r.error?.map (cleared.record slot)).getD cleared)
  | .error _ => (work, cleared)

end Desk

end Abacus
