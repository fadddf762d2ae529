import Abacus.Proofs.Grammar

/-!
# What can still become an expression

Tokens that come one after another may be the front of an expression, or may be past all
help. To tell these apart no tree is needed, and no look at ranks: it is enough to know
whether an operand or an operator comes next, and how many groups are open. `Outlook` is
this knowledge, and `Outlook.next` what a token makes of it.

A list of tokens can be completed to an expression and an end of input exactly if there is
an outlook at each of its tokens (`viable_iff`). One direction goes along the grammar. The
other one holds a completion ready for every outlook (`Live`): an operand if one is due, and
then, for each open group, what closes it.
-/

namespace Abacus.Parse

/-- The tokens are an expression and an end of input. -/
def Complete (ts : List Token) : Prop := ∃ w stop e, ts = w ++ [stop] ∧ Derives .expr w e ∧ stop.isEnd = true

/-- The tokens can be completed to an expression and an end of input. -/
def Viable (ts : List Token) : Prop := ∃ more, Complete (ts ++ more)

theorem Viable.of_append {v w : List Token} (h : Viable (v ++ w)) : Viable v := by
  obtain ⟨more, h⟩ := h
  exact ⟨w ++ more, by rwa [← List.append_assoc]⟩

/-! ### Outlooks -/

/-- What can come next when tokens are read from left to right. -/
inductive Outlook where
  /-- An operand, inside so many groups. -/
  | operand (groups : Nat)
  /-- An operator or the end of what is open, inside so many groups. -/
  | operator (groups : Nat)
  /-- Nothing. -/
  | nothing
  deriving DecidableEq, Repr

namespace Outlook

/-- What can come next behind a lexeme, if the lexeme can stand here. -/
def next : Outlook → Lexeme → Option Outlook
  | operand g, .number _ | operand g, .identifier _ => some (operator g)
  | operand g, .openParen => some (operand (g + 1))
  | operand g, .operator d =>
    if d.denoted? = some .add ∨ d.denoted? = some .subtract then some (operand g) else none
  | operator g, .operator (.operator _) => some (operand g)
  | operator (g + 1), .closeParen => some (operator g)
  | operator 0, .endOfInput => some nothing
  | _, _ => none

/-- What can come next behind tokens, if they can all stand where they do. -/
def after (s : Outlook) (ts : List Token) : Option Outlook := ts.foldlM (fun s t => s.next t.lexeme) s

@[simp] theorem after_nil (s : Outlook) : s.after [] = some s := rfl

@[simp] theorem after_cons (s : Outlook) (t : Token) (ts : List Token) :
    s.after (t :: ts) = (s.next t.lexeme).bind fun s' => s'.after ts := rfl

@[simp] theorem after_append (s : Outlook) (v w : List Token) :
    s.after (v ++ w) = (s.after v).bind fun s' => s'.after w := List.foldlM_append

end Outlook

/-- The tokens of an operand, a term or an expression change what comes next from an operand
to an operator, inside the same groups. -/
theorem Derives.after {n : Nonterminal} {w : List Token} {e : Expr} (h : Derives n w e) (g : Nat) :
    (Outlook.operand g).after w = some (.operator g) := by
  induction h generalizing g with
  | ofTerm _ ih | ofPrimary _ ih => exact ih g
  | @sum v w t op l r _ hc _ _ ihl ihr | @product v w t op l r _ hc _ _ ihl ihr =>
    have ht : t.lexeme = .operator (.operator op) := hc
    simp [ihl g, ht, Outlook.next, ihr g]
  | number ht | identifier ht => simp [ht, Outlook.next]
  | group ho _ hc ih => simp [ho, Outlook.next, ih (g + 1), hc]
  | plus hs _ ih | minus hs _ ih =>
    obtain ⟨d, hd, hop⟩ := hs
    simp [hd, Outlook.next, hop, ih g]

theorem Complete.after {ts : List Token} (h : Complete ts) : (Outlook.operand 0).after ts = some .nothing := by
  obtain ⟨w, stop, e, rfl, hw, hstop⟩ := h
  rw [Token.isEnd, decide_eq_true_eq] at hstop
  simp [hw.after 0, hstop, Outlook.next]

/-! ### Completions -/

/-- `Closing g k`: behind an operand, the tokens `k` go on with operators and operands, and
close `g` groups on the way. -/
def Closing : Nat → List Token → Prop
  | 0, k => ∃ js, Row (Derives .primary) k js
  | g + 1, k => ∃ r js c k', k = r ++ c :: k' ∧ Row (Derives .primary) r js ∧ c.lexeme = .closeParen ∧ Closing g k'

theorem Closing.cons_operator {g : Nat} {t : Token} {op : Operator} {w k : List Token} {e : Expr} (ht : Carries t op)
    (hw : Derives .primary w e) (hk : Closing g k) : Closing g (t :: (w ++ k)) := by
  have hrow {r : List Token} {js : List Join} (hr : Row (Derives .primary) r js) :
      Row (Derives .primary) (t :: (w ++ r)) (⟨t, op, e⟩ :: js) := Row.cons (j := ⟨t, op, e⟩) ht hw hr
  cases g with
  | zero =>
    obtain ⟨js, hr⟩ := hk
    exact ⟨_, hrow hr⟩
  | succ g =>
    obtain ⟨r, js, c, k', rfl, hr, hc, hk'⟩ := hk
    exact ⟨_, _, c, k', by simp, hrow hr, hc, hk'⟩

theorem Closing.cons_closeParen {g : Nat} {c : Token} {k : List Token} (hc : c.lexeme = .closeParen)
    (hk : Closing g k) : Closing (g + 1) (c :: k) :=
  ⟨[], [], c, k, rfl, .nil, hc, hk⟩

/-- So many closing parentheses close the groups. -/
theorem closing_replicate {c : Token} (hc : c.lexeme = .closeParen) (g : Nat) : Closing g (List.replicate g c) := by
  induction g with
  | zero => exact ⟨[], .nil⟩
  | succ g ih => exact ih.cons_closeParen hc

/-- `Live s v`: all that the outlook `s` promises of what follows makes the tokens `v` an
expression. -/
def Live : Outlook → List Token → Prop
  | .operand g, v => ∀ w e k, Derives .primary w e → Closing g k → ∃ e', Derives .expr (v ++ (w ++ k)) e'
  | .operator g, v => ∀ k, Closing g k → ∃ e, Derives .expr (v ++ k) e
  | .nothing, v => Complete v

theorem live_nil : Live (.operand 0) [] := by
  intro w e k hw hk
  obtain ⟨js, hk⟩ := hk
  exact ⟨_, Flat.derives ⟨w, k, rfl, hw, hk⟩⟩

/-! One token more. -/

section Next

variable {g : Nat} {v : List Token} {t : Token}

theorem Live.operand {e : Expr} (h : Live (.operand g) v) (ht : Derives .primary [t] e) :
    Live (.operator g) (v ++ [t]) := by
  intro k hk
  simpa using h [t] e k ht hk

/-- Behind a sign an operand is due as before, for the sign and the operand are an operand. -/
theorem Live.sign (h : Live (.operand g) v) (ht : Signs t .add ∨ Signs t .subtract) :
    Live (.operand g) (v ++ [t]) := by
  intro w e k hw hk
  rcases ht with ht | ht
  · simpa using h (t :: w) _ k (.plus ht hw) hk
  · simpa using h (t :: w) _ k (.minus ht hw) hk

/-- An opened group takes what follows, up to the parenthesis that closes it, as its inside. -/
theorem Live.openParen (h : Live (.operand g) v) (ht : t.lexeme = .openParen) :
    Live (.operand (g + 1)) (v ++ [t]) := by
  intro w e k hw hk
  obtain ⟨r, js, c, k', rfl, hr, hc, hk'⟩ := hk
  have hgroup := Derives.group ht (Flat.derives ⟨w, r, rfl, hw, hr⟩) hc
  simpa using h _ _ k' hgroup hk'

theorem Live.operator {op : Operator} (h : Live (.operator g) v) (ht : Carries t op) :
    Live (.operand g) (v ++ [t]) := by
  intro w e k hw hk
  simpa using h _ (hk.cons_operator ht hw)

theorem Live.closeParen (h : Live (.operator (g + 1)) v) (ht : t.lexeme = .closeParen) :
    Live (.operator g) (v ++ [t]) := by
  intro k hk
  simpa using h _ (hk.cons_closeParen ht)

theorem Live.endOfInput (h : Live (.operator 0) v) (ht : t.lexeme = .endOfInput) : Live .nothing (v ++ [t]) := by
  obtain ⟨e, he⟩ := h [] ⟨[], .nil⟩
  exact ⟨v, t, e, rfl, by simpa using he, by simp [Token.isEnd, ht]⟩

/-- A token that can stand where it does keeps the promise. -/
theorem Live.next {s s' : Outlook} (h : Live s v) (hs : s.next t.lexeme = some s') : Live s' (v ++ [t]) := by
  revert hs
  generalize ht : t.lexeme = l
  fun_cases Outlook.next s l with
  | case1 g value =>
    rintro ⟨⟩
    exact h.operand (.number ht)
  | case2 g name =>
    rintro ⟨⟩
    exact h.operand (.identifier ht)
  | case3 g =>
    rintro ⟨⟩
    exact h.openParen ht
  | case4 g d hd =>
    rintro ⟨⟩
    exact h.sign (hd.imp (fun hd => ⟨d, ht, hd⟩) fun hd => ⟨d, ht, hd⟩)
  | case6 g op =>
    rintro ⟨⟩
    exact h.operator ht
  | case7 g =>
    rintro ⟨⟩
    exact h.closeParen ht
  | case8 =>
    rintro ⟨⟩
    exact h.endOfInput ht
  | case5 | case9 => rintro ⟨⟩

end Next

/-- So do tokens that can all stand where they do. -/
theorem Live.after {s s' : Outlook} {v w : List Token} (h : Live s v) (hs : s.after w = some s') :
    Live s' (v ++ w) := by
  induction w generalizing s v with
  | nil =>
    cases hs
    rwa [List.append_nil]
  | cons t w ih =>
    obtain ⟨s₁, h₁, hs⟩ := Option.bind_eq_some_iff.mp hs
    simpa using ih (h.next h₁) hs

/-- What is promised can be had. -/
theorem Live.viable {s : Outlook} {v : List Token} (h : Live s v) : Viable v := by
  have hcomplete {w : List Token} {e : Expr} (hw : Derives .expr w e) : Complete (w ++ [.ofLexeme .endOfInput 0]) :=
    ⟨w, _, e, rfl, hw, rfl⟩
  cases s with
  | operand g =>
    obtain ⟨e, he⟩ := h [.ofLexeme (.number (.int 0)) 0] _ (List.replicate g (.ofLexeme .closeParen 0)) (.number rfl)
      (closing_replicate rfl g)
    exact ⟨_, by simpa using hcomplete he⟩
  | operator g =>
    obtain ⟨e, he⟩ := h (List.replicate g (.ofLexeme .closeParen 0)) (closing_replicate rfl g)
    exact ⟨_, by simpa using hcomplete he⟩
  | nothing => exact ⟨[], by rwa [List.append_nil]⟩

/-- Tokens can be completed exactly if each of them can stand where it does. -/
theorem viable_iff {ts : List Token} : Viable ts ↔ ∃ s, (Outlook.operand 0).after ts = some s := by
  constructor
  · rintro ⟨more, hmore⟩
    have hafter := hmore.after
    rw [Outlook.after_append] at hafter
    obtain ⟨s, hs, -⟩ := Option.bind_eq_some_iff.mp hafter
    exact ⟨s, hs⟩
  · rintro ⟨s, hs⟩
    exact (live_nil.after hs).viable

/-- The first token that cannot stand where it does spoils what was viable before it. -/
theorem not_viable_of_next {v : List Token} {t : Token} {s : Outlook} (hs : (Outlook.operand 0).after v = some s)
    (ht : s.next t.lexeme = none) : ¬ Viable (v ++ [t]) := by
  rw [viable_iff]
  simp [hs, ht]

/-- Of the fronts of a list that loses its last hope at a token, those that end before it are
viable. -/
theorem viable_take_iff {before after : List Token} {t : Token} (h : Viable before) (ht : ¬ Viable (before ++ [t]))
    (n : Nat) : Viable ((before ++ t :: after).take n) ↔ n ≤ before.length := by
  constructor
  · intro hn
    rcases Nat.lt_or_ge before.length n with hlt | hle
    · obtain ⟨k, rfl⟩ : ∃ k, n = before.length + (k + 1) := ⟨n - before.length - 1, by omega⟩
      rw [List.take_length_add_append, List.take_succ_cons, List.append_cons] at hn
      exact absurd hn.of_append ht
    · exact hle
  · intro hn
    rw [List.take_append_of_le_length hn]
    rw [← List.take_append_drop n before] at h
    exact h.of_append

end Abacus.Parse
