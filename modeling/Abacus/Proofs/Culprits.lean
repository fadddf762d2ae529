import Abacus.Proofs.TokenOrder

/-!
# Nodes without code

A tree that was made by hand may hold nodes without code: something outside the language, or a unary
operator other than the change of sign. Code is written from the leaves up, so a tree with several such
nodes could be turned down for any of them, depending on how far the writing has come. It is turned down
for the one that comes first on the way down: a node before all that is below it, and what is to the left
before what is to the right.

Whether something outside the language is recognised as such depends on the name of its type. With the
name of a node it is taken for that node. Then it has code, if it has the parts of such a node, and
otherwise the failure is that it lacks one.
-/

namespace Abacus

namespace Expr

/-- What is wrong with a node without code. -/
def culprit : Expr → Culprit
  | foreign object =>
    match object.guise with
    | .hollow kind => .hollow object.typeName kind.firstPart
    | _ => .codeless (foreign object)
  | e => .codeless e

/-- The node is taken for a node of a kind of which it lacks a part. -/
def Hollow (e : Expr) (kind : NodeKind) : Prop := ∃ object, e = .foreign object ∧ object.guise = .hollow kind

end Expr

/-! ### The error -/

theorem Expr.Hollow.unique {e : Expr} {kind kind' : NodeKind} (h : e.Hollow kind) (h' : e.Hollow kind') :
    kind = kind' := by
  obtain ⟨object, rfl, hguise⟩ := h
  obtain ⟨_, heq, hguise'⟩ := h'
  cases heq
  exact Guise.hollow.inj (hguise.symm.trans hguise')

/-! ### The name of a node -/

/-- A unary operator that is none is found before the text in its operand, and before the missing node to its
right. -/
example : (Expr.binary 3 (.operator .add)
      (.unary 0 (.other (.text "~")) (.foreign (.bare "str" .missing))) (.foreign (.bare "NoneType" .missing))).code =
    .error (.codeless (.unary 0 (.other (.text "~")) (.foreign (.bare "str" .missing)))) := rfl

end Abacus
