import Abacus.Expr.Basic
import Abacus.Token.Listing

/-!
# Trees as text

A tree is listed from the root down, one node on a line, each level indented by two
more spaces. A number with more digits than the limit has no text: the listing then
ends before it. So it does before something that is taken for a node and lacks a part
of it.

The limit is for values. A position is an offset in a text, so it has few digits, and
is always written.
-/

namespace Abacus

/-- What could be listed of a tree. -/
structure TreeListing where
  /-- The lines. -/
  lines : List String
  /-- The level of the node that could not be listed, if there is one. -/
  stopped : Option Nat
  deriving DecidableEq, Repr

namespace TreeListing

/-- A line at a level. -/
def line (level : Nat) (text : String) : TreeListing :=
  ⟨["".pushn ' ' (2 * level) ++ text], none⟩

/-- One listing after another. -/
def append (a b : TreeListing) : TreeListing :=
  match a.stopped with
  | some _ => a
  | none => ⟨a.lines ++ b.lines, b.stopped⟩

instance : Append TreeListing := ⟨append⟩

end TreeListing

/-- The name of a unary operator in listings. -/
def UnaryOperator.title : UnaryOperator → String
  | negate => "NEGATE"
  | other _ => "UNKNOWN"

namespace Expr

/-- The listing of a number at a level. -/
def numberListing (level : Nat) (p : Int) (value : Number) : TreeListing :=
  match value.text? with
  | some text => .line level s!"NUMBER {text} @{p}"
  | none => ⟨[], some level⟩

/-- The listing of a tree whose root stands at a level. -/
def listingAt (level : Nat) : Expr → TreeListing
  | number p value => numberListing level p value
  | identifier p name => .line level s!"IDENTIFIER {name} @{p}"
  | unary p op e => .line level s!"{op.title} @{p}" ++ e.listingAt (level + 1)
  | binary p op l r =>
    .line level s!"{op.title} @{p}" ++ (l.listingAt (level + 1) ++ r.listingAt (level + 1))
  | foreign object =>
    match object.guise with
    | .number p value => numberListing level p value
    | .identifier p name => .line level s!"IDENTIFIER {name} @{p}"
    | .hollow _ => ⟨[], some level⟩
    | .stranger => .line level s!"<{object.typeName}>"

/-- The listing of a tree. -/
def listing (e : Expr) : TreeListing := e.listingAt 0

/-- The listing of a tree as one text, if it is complete. -/
def text? (e : Expr) : Option String :=
  match e.listing with
  | ⟨lines, none⟩ => some ("\n".intercalate lines)
  | ⟨_, some _⟩ => none

end Expr

end Abacus
