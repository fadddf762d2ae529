import Abacus.Proofs.Evaluation
import Abacus.Proofs.Grammar

/-!
# Moving things about

Tokens, trees, faults and errors carry offsets. To relocate one of them is to apply a
function to each offset that it carries. Offsets decide nothing: what tokens make up and what
a tree means is the same after a move, and the fault of a tree that has moved is the fault of
the tree, moved in the same way.
-/

namespace Abacus

/-! ### What moves -/

def Token.relocate (f : Int → Int) (t : Token) : Token := { t with position := f t.position }

/-- Something outside the language moves if it claims an offset. -/
def Foreign.relocate (f : Int → Int) : Foreign → Foreign
  | .bare typeName position => .bare typeName ((position.offset?.map fun p => .number (.int (f p))).getD position)
  | .valued typeName p value => .valued typeName (f p) value
  | .named typeName p name => .named typeName (f p) name

def Expr.relocate (f : Int → Int) : Expr → Expr
  | .number p value => .number (f p) value
  | .identifier p name => .identifier (f p) name
  | .unary p op e => .unary (f p) op (e.relocate f)
  | .binary p value l r => .binary (f p) value (l.relocate f) (r.relocate f)
  | .foreign object => .foreign (object.relocate f)

def Machine.Fault.relocate (f : Int → Int) : Machine.Fault → Machine.Fault
  | .unknownName name p => .unknownName name (f p)
  | .inapplicable value p => .inapplicable value (f p)
  | .arithmetic fault value p => .arithmetic fault value (f p)
  | .foreignInstr object => .foreignInstr (object.relocate f)
  | .emptyStack => .emptyStack
  | .unbalanced depth => .unbalanced depth

def Place.relocate (f : Int → Int) (place : Place) : Place := { place with offset := f place.offset }

def Error.relocate (f : Int → Int) (e : Error) : Error := { e with position := e.position.map (Place.relocate f) }

def Failure.relocate (f : Int → Int) : Failure → Failure
  | .error e => .error (e.relocate f)
  | failure => failure

theorem Foreign.offset?_relocate (f : Int → Int) (object : Foreign) :
    (object.relocate f).position.offset? = object.position.offset?.map f := by
  cases object with
  | valued | named => rfl
  | bare typeName position =>
    rw [relocate, Foreign.position, Foreign.position]
    cases h : position.offset? with
    | none => exact h
    | some p => rfl

theorem Foreign.typeName_relocate (f : Int → Int) (object : Foreign) :
    (object.relocate f).typeName = object.typeName := by
  cases object <;> rfl

/-! ### Meaning -/

/-- Tokens that have moved make up the tree, moved in the same way. -/
theorem Parse.Derives.relocate {n : Nonterminal} {w : List Token} {e : Expr} (h : Derives n w e)
    (f : Int → Int) : Derives n (w.map (Token.relocate f)) (e.relocate f) := by
  induction h with
  | ofTerm _ ih => exact .ofTerm ih
  | @sum v w t op l r _ hc hop _ ihl ihr =>
    rw [List.map_append, List.map_cons]
    exact .sum (t := t.relocate f) ihl hc hop ihr
  | ofPrimary _ ih => exact .ofPrimary ih
  | @product v w t op l r _ hc hop _ ihl ihr =>
    rw [List.map_append, List.map_cons]
    exact .product (t := t.relocate f) ihl hc hop ihr
  | @number t value ht => exact .number (t := t.relocate f) ht
  | @identifier t name ht => exact .identifier (t := t.relocate f) ht
  | group ho _ hc ih =>
    rw [List.map_cons, List.map_append]
    exact .group ho ih hc
  | plus ht _ ih => exact .plus ht ih
  | @minus t w e ht _ ih => exact .minus (t := t.relocate f) ht ih

/-- The value of a tree does not depend on where it stands, and its fault moves with it. -/
theorem Expr.eval_relocate (f : Int → Int) (e : Expr) :
    (e.relocate f).eval = e.eval.mapError (Machine.Fault.relocate f) := by
  induction e with
  | number | identifier | foreign => rfl
  | unary p op e ih =>
    cases op with
    | negate =>
      rw [relocate, eval, eval, ih]
      cases e.eval <;> rfl
    | other value => rfl
  | binary p value l r ihl ihr =>
    rw [relocate, eval, eval, ihl, ihr]
    cases l.eval with
    | error fault => rfl
    | ok a =>
      cases r.eval with
      | error fault => rfl
      | ok b =>
        simp only [Except.mapError_ok, Except.ok_bind]
        cases value.denoted? with
        | none => rfl
        | some op =>
          dsimp only
          cases op.apply a b <;> rfl

/-- What is reported of a fault moves with it. -/
theorem Failure.ofMachine_relocate (f : Int → Int) (fault : Machine.Fault) :
    ofMachine (fault.relocate f) = (ofMachine fault).relocate f := by
  cases fault with
  | emptyStack | unbalanced | unknownName => rfl
  | inapplicable value p =>
    simp only [Machine.Fault.relocate, ofMachine, inapplicable]
    cases value.quoted? <;> rfl
  | arithmetic fault value p =>
    cases fault with
    | tooLarge =>
      simp only [Machine.Fault.relocate, ofMachine, resultTooLarge]
      cases value.subject? <;> rfl
    | outOfDomain | floorOfNan => rfl
  | foreignInstr object =>
    simp only [Machine.Fault.relocate, ofMachine, Error.foreignInstr, Error.atOffset,
      Foreign.offset?_relocate, Foreign.typeName_relocate, Failure.relocate, Error.relocate]
    cases object.position.offset? <;> rfl

end Abacus
