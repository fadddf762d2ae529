import Abacus.Proofs.Offsets

/-!
# Reading with a cursor

The parser takes tokens off the front of a list, and what it has taken is gone. One can also keep the
list and move a cursor along it, from one index to the next. Then nothing keeps the cursor inside the list:
behind the last token it finds that token again and again, and a loop that waits for something else would
not end.

Here the parser is written in this way, with a note of each index at which it looks and with a number of
rounds for its loop, after which it gives up. The note is complete: lists with the same tokens at these
indices are read in the same way. It never gives up and never looks behind the first end of
input: an end of input starts no operand and closes no group, so to take it is to fail at once. And as it
agrees with the parser on every list that is the same up to there (`Sees`), what follows the first end of
input decides nothing.
-/

namespace Abacus.Parse

/-! ### Looking at tokens by index -/

/-- A reading by index: where it has looked, in this order, and what has come of it, unless it gave up. -/
structure Reading (α : Type) where
  /-- The indices of the tokens that were looked at. -/
  looks : List Nat
  /-- The result or the fault, if there is one. -/
  outcome : Option (Except Fault α)

namespace Reading

/-- One reading after another. -/
protected def bind {α β : Type} (x : Reading α) (f : α → Reading β) : Reading β :=
  match x.outcome with
  | some (.ok a) => ⟨x.looks ++ (f a).looks, (f a).outcome⟩
  | some (.error fault) => ⟨x.looks, some (.error fault)⟩
  | none => ⟨x.looks, none⟩

instance : Monad Reading where
  pure a := ⟨[], some (.ok a)⟩
  bind := Reading.bind

/-- A fault. -/
def fail {α : Type} (fault : Fault) : Reading α := ⟨[], some (.error fault)⟩

/-- Too many rounds. -/
def giveUp {α : Type} : Reading α := ⟨[], none⟩

end Reading

/-- The token at an index. Past the end, it is the last one. -/
def tokenAt (ts : List Token) (i : Nat) : Token := ts[i]?.getD (ts.getLastD (.ofLexeme .endOfInput 0))

/-- Look at the token at an index. -/
def look (ts : List Token) (i : Nat) : Reading Token := ⟨[i], some (.ok (tokenAt ts i))⟩

/-! ### The parser with a cursor -/

/-- Operators with an operand behind each, as many as there are, in so many rounds. -/
def operatorRunAt (ts : List Token) (read : Nat → Reading (Expr × Nat)) :
    Nat → Nat → Reading (List (Token × Expr) × Nat)
  | 0, _ => .giveUp
  | rounds + 1, i => do
    let t ← look ts i
    if t.lexeme.isOperator then
      let right ← read (i + 1)
      let run ← operatorRunAt ts read rounds right.2
      return ((t, right.1) :: run.1, run.2)
    else return ([], i)

/-- An expression. -/
def expressionAt (ts : List Token) (rounds : Nat) (read : Nat → Reading (Expr × Nat)) (i : Nat) :
    Reading (Expr × Nat) := do
  let first ← read i
  let run ← operatorRunAt ts read rounds first.2
  match resolve first.1 run.1 with
  | .ok tree => return (tree, run.2)
  | .error fault => .fail fault

/-- The end of a group. -/
def closeGroupAt (ts : List Token) (e : Expr) (i : Nat) : Reading (Expr × Nat) := do
  let t ← look ts i
  if t.lexeme = .closeParen then return (e, i + 1) else .fail ⟨.unclosedGroup, t⟩

/-- Open a group or a sign at a token, if there is a level below, and go on with how an operand is read there. -/
def openLevel (t : Token) : Option (Nat → Reading (Expr × Nat)) → Reading (Nat → Reading (Expr × Nat))
  | some read => pure read
  | none => .fail ⟨.tooDeep, t⟩

/-- An operand, given how an operand is read one level below. -/
def operandOver (ts : List Token) (rounds : Nat) (below : Option (Nat → Reading (Expr × Nat))) (i : Nat) :
    Reading (Expr × Nat) := do
  let t ← look ts i
  match t.lexeme with
  | .number value => return (.number t.position value, i + 1)
  | .identifier name => return (.identifier t.position name, i + 1)
  | .openParen =>
    let read ← openLevel t below
    let inside ← expressionAt ts rounds read (i + 1)
    closeGroupAt ts inside.1 inside.2
  | .operator value =>
    match value.denoted? with
    | some .add =>
      let read ← openLevel t below
      read (i + 1)
    | some .subtract =>
      let read ← openLevel t below
      let e ← read (i + 1)
      match checkDepth t (.unary t.position .negate e.1) with
      | .ok node => return (node, e.2)
      | .error fault => .fail fault
    | _ => .fail ⟨.noOperand, t⟩
  | _ => .fail ⟨.noOperand, t⟩

/-- An operand, when `room` more groups and signs may be opened. -/
def operandAt (ts : List Token) (rounds : Nat) : Nat → Nat → Reading (Expr × Nat)
  | 0 => operandOver ts rounds none
  | room + 1 => operandOver ts rounds (some (operandAt ts rounds room))

/-- The one expression that closed tokens hold, up to an end of input. -/
def wholeAt (ts : List Token) (rounds : Nat) : Reading (Expr × Nat) := do
  let tree ← expressionAt ts rounds (operandAt ts rounds depthLimit) 0
  let t ← look ts tree.2
  if t.isEnd then return tree else .fail ⟨.surplus, t⟩

/-- The expression that a list of tokens holds. -/
def treeAt (rounds : Nat) (ts : List Token) : Reading Expr := do
  let tree ← wholeAt (close ts) rounds
  return tree.1

/-! ### What was looked at decides -/

section Decided

variable {α β : Type}

theorem bind_of_ok {x : Reading α} {a : α} (h : x.outcome = some (.ok a)) (f : α → Reading β) :
    x >>= f = ⟨x.looks ++ (f a).looks, (f a).outcome⟩ := by
  show Reading.bind x f = _
  rw [Reading.bind, h]

theorem bind_of_error {x : Reading α} {fault : Fault} (h : x.outcome = some (.error fault)) (f : α → Reading β) :
    x >>= f = ⟨x.looks, some (.error fault)⟩ := by
  show Reading.bind x f = _
  rw [Reading.bind, h]

/-- The reading of a list depends on nothing but the tokens at which it looks: other lists that have the same
tokens there are read in the same way. -/
def Decided (x : List Token → Reading α) : Prop :=
  ∀ ts us, (∀ i ∈ (x ts).looks, tokenAt us i = tokenAt ts i) → x us = x ts

theorem decided_const (x : Reading α) : Decided fun _ => x := fun _ _ _ => rfl

theorem decided_look (i : Nat) : Decided (look · i) := by
  intro ts us h
  show look us i = look ts i
  rw [look, look, h i (List.mem_singleton_self i)]

theorem Decided.bind {x : List Token → Reading α} {f : α → List Token → Reading β} (hx : Decided x)
    (hf : ∀ a, Decided (f a)) : Decided fun ts => x ts >>= fun a => f a ts := by
  intro ts us h
  have hsame : ∀ i ∈ (x ts).looks, tokenAt us i = tokenAt ts i := by
    intro i hi
    apply h i
    show i ∈ (Reading.bind (x ts) fun a => f a ts).looks
    rw [Reading.bind]
    split
    · exact List.mem_append_left _ hi
    · exact hi
    · exact hi
  show x us >>= (fun a => f a us) = x ts >>= fun a => f a ts
  rw [hx ts us hsame]
  cases hout : (x ts).outcome with
  | none =>
    show Reading.bind _ _ = Reading.bind _ _
    simp only [Reading.bind, hout]
  | some result =>
    cases result with
    | error fault => rw [bind_of_error hout, bind_of_error hout]
    | ok a =>
      simp only [bind_of_ok hout] at h ⊢
      rw [hf a ts us fun i hi => h i (List.mem_append_right _ hi)]

section Expression

variable {read : List Token → Nat → Reading (Expr × Nat)} (hread : ∀ i, Decided (read · i))

include hread

theorem operatorRunAt_decided (rounds i : Nat) : Decided fun ts => operatorRunAt ts (read ts) rounds i := by
  induction rounds generalizing i with
  | zero => exact decided_const .giveUp
  | succ rounds ih =>
    refine (decided_look i).bind fun t => ?_
    by_cases hop : t.lexeme.isOperator = true
    · simp only [if_pos hop]
      exact (hread (i + 1)).bind fun right => (ih right.2).bind fun run => decided_const _
    · simp only [if_neg hop]
      exact decided_const _

theorem expressionAt_decided (rounds i : Nat) : Decided fun ts => expressionAt ts rounds (read ts) i := by
  refine (hread i).bind fun first => (operatorRunAt_decided hread rounds first.2).bind fun run => ?_
  exact decided_const _

end Expression

theorem closeGroupAt_decided (e : Expr) (i : Nat) : Decided fun ts => closeGroupAt ts e i :=
  (decided_look i).bind fun _ => decided_const _

theorem operandOver_decided (rounds i : Nat) (below : Option (List Token → Nat → Reading (Expr × Nat)))
    (hbelow : ∀ read ∈ below, ∀ i, Decided (read · i)) :
    Decided fun ts => operandOver ts rounds (below.map (· ts)) i := by
  refine (decided_look i).bind fun t => ?_
  cases t.lexeme with
  | number | identifier | endOfInput | closeParen | other => exact decided_const _
  | openParen =>
    cases below with
    | none => exact decided_const (.fail ⟨.tooDeep, t⟩)
    | some read =>
      exact (expressionAt_decided (hbelow read rfl) rounds (i + 1)).bind fun inside =>
        closeGroupAt_decided inside.1 inside.2
  | operator value =>
    dsimp only
    cases value.denoted? with
    | none => exact decided_const _
    | some op =>
      cases op with
      | multiply | divide | modulo | floorDivide => exact decided_const _
      | add =>
        cases below with
        | none => exact decided_const (.fail ⟨.tooDeep, t⟩)
        | some read => exact hbelow read rfl (i + 1)
      | subtract =>
        cases below with
        | none => exact decided_const (.fail ⟨.tooDeep, t⟩)
        | some read => exact (hbelow read rfl (i + 1)).bind fun e => decided_const _

theorem operandAt_decided (rounds room : Nat) : ∀ i, Decided fun ts => operandAt ts rounds room i := by
  induction room with
  | zero => exact fun i => operandOver_decided rounds i none (by simp)
  | succ room ih =>
    intro i
    refine operandOver_decided rounds i (some fun ts => operandAt ts rounds room) fun read hread => ?_
    cases hread
    exact ih

theorem wholeAt_decided (rounds : Nat) : Decided fun ts => wholeAt ts rounds :=
  (expressionAt_decided (operandAt_decided rounds depthLimit) rounds 0).bind fun tree =>
    (decided_look tree.2).bind fun _ => decided_const _

/-- **What the cursor looked at decides.** Of two lists that have the same tokens, once they are closed, at all
indices at which the cursor looks in one of them, it makes the same of both, and looks at the same indices. -/
theorem treeAt_eq_of_looks {rounds : Nat} {ts us : List Token}
    (h : ∀ i ∈ (treeAt rounds ts).looks, tokenAt (close us) i = tokenAt (close ts) i) :
    treeAt rounds us = treeAt rounds ts :=
  (wholeAt_decided rounds).bind (fun tree => decided_const (pure tree.1)) (close ts) (close us) h

end Decided

/-! ### The cursor and the front of a list -/

/-- Up to the index `k`, a cursor in the list `ts` meets the tokens that stand at the front of `us` when so many
have been taken off, and at `k` it meets an end of input. -/
def Sees (ts us : List Token) (k : Nat) : Prop :=
  ∀ i ≤ k, us.drop i = tokenAt ts i :: us.drop (i + 1) ∧ ((tokenAt ts i).lexeme ≠ .endOfInput → i + 1 ≤ k)

/-- `Follows us k x y`: the reading by index looks nowhere behind `k`, and it does what the reading `y` of the
list does. If both go on, the cursor has not passed `k`, and stands at what is left of the list. If both
stop, then at most the token at `k` has been taken besides. -/
def Follows {α : Type} (us : List Token) (k : Nat) (x : Reading (α × Nat)) (y : Except Stop (Front α)) : Prop :=
  (∀ i ∈ x.looks, i ≤ k) ∧
    ((∃ a i, i ≤ k ∧ x.outcome = some (.ok (a, i)) ∧ y = .ok (a, us.drop i)) ∨
      ∃ stop i, i ≤ k + 1 ∧ stop.rest = us.drop i ∧ x.outcome = some (.error stop.fault) ∧ y = .error stop)

section Follows

variable {α β : Type} {ts us : List Token} {k : Nat}

theorem follows_ok {a : α} {i : Nat} (hi : i ≤ k) : Follows us k (pure (a, i)) (.ok (a, us.drop i)) :=
  ⟨List.forall_mem_nil _, .inl ⟨a, i, hi, rfl, rfl⟩⟩

theorem follows_fail {fault : Fault} {nesting i : Nat} (hi : i ≤ k + 1) :
    Follows us k (.fail fault : Reading (α × Nat)) (.error ⟨fault, us.drop i, nesting⟩) :=
  ⟨List.forall_mem_nil _, .inr ⟨_, i, hi, rfl, rfl, rfl⟩⟩

theorem Follows.bind {x : Reading (α × Nat)} {y : Except Stop (Front α)} {f : α × Nat → Reading (β × Nat)}
    {g : Front α → Except Stop (Front β)} (hx : Follows us k x y)
    (hf : ∀ a i, i ≤ k → y = .ok (a, us.drop i) → Follows us k (f (a, i)) (g (a, us.drop i))) :
    Follows us k (x >>= f) (y >>= g) := by
  obtain ⟨hlooks, ⟨a, i, hi, hx, rfl⟩ | ⟨stop, i, hi, hrest, hx, rfl⟩⟩ := hx
  · obtain ⟨hlooks', hout⟩ := hf a i hi rfl
    rw [bind_of_ok hx]
    exact ⟨List.forall_mem_append.mpr ⟨hlooks, hlooks'⟩, hout⟩
  · rw [bind_of_error hx]
    exact ⟨hlooks, .inr ⟨stop, i, hi, hrest, rfl, rfl⟩⟩

/-- A look at an index up to `k` shows the front of the list, and unless that ends the input the next index is
no further than `k`. -/
theorem follows_look {i : Nat} (hsees : Sees ts us k) (hi : i ≤ k) {f : Token → Reading (α × Nat)}
    {g : List Token → Except Stop (Front α)}
    (hf : ∀ t, us.drop i = t :: us.drop (i + 1) → (t.lexeme ≠ .endOfInput → i + 1 ≤ k) →
      Follows us k (f t) (g (t :: us.drop (i + 1)))) : Follows us k (look ts i >>= f) (g (us.drop i)) := by
  obtain ⟨hdrop, hnext⟩ := hsees i hi
  obtain ⟨hlooks, hout⟩ := hf _ hdrop hnext
  rw [bind_of_ok rfl, hdrop]
  exact ⟨List.forall_mem_append.mpr ⟨by simpa [look] using hi, hlooks⟩, hout⟩

section Expression

variable {rounds room : Nat} {read : Nat → Reading (Expr × Nat)} (hsees : Sees ts us k)
  (hread : ∀ i ≤ k, Follows us k (read i) (operand room (us.drop i)))

include hsees hread

/-- With a round for each token, the cursor goes along a whole row. -/
theorem operatorRunAt_follows {fuel i : Nat} (hi : i ≤ k) (hrounds : (us.drop i).length ≤ rounds)
    (hfuel : (us.drop i).length ≤ fuel) :
    Follows us k (operatorRunAt ts read rounds i) (operatorRun (operand room) fuel (us.drop i)) := by
  induction rounds generalizing fuel i with
  | zero =>
    rw [(hsees i hi).1] at hrounds
    cases hrounds
  | succ rounds ih =>
    cases fuel with
    | zero =>
      rw [(hsees i hi).1] at hfuel
      cases hfuel
    | succ fuel =>
      rw [operatorRunAt]
      refine follows_look hsees hi fun t hdrop hnext => ?_
      rw [operatorRun]
      by_cases hop : t.lexeme.isOperator = true
      · rw [if_pos hop, if_pos hop]
        have hi' : i + 1 ≤ k := hnext (ne_endOfInput_of_isOperator hop)
        refine (hread (i + 1) hi').bind fun right mid hmid hright => ?_
        -- an operand is not empty, so there are rounds enough for what is behind it
        have hlength := (suffix_of_operand room _ _ _ hright).length_le
        rw [hdrop, List.length_cons] at hrounds hfuel
        refine (ih hmid (by omega) (by omega)).bind fun run j hj _ => ?_
        exact follows_ok hj
      · rw [if_neg hop, if_neg hop, ← hdrop]
        exact follows_ok hi

theorem expressionAt_follows {nesting i : Nat} (hi : i ≤ k) (hrounds : us.length ≤ rounds) :
    Follows us k (expressionAt ts rounds read i) (expression (operand room) nesting (us.drop i)) := by
  rw [expressionAt, expression]
  refine (hread i hi).bind fun first mid hmid _ => ?_
  have hlength : (us.drop mid).length ≤ us.length := by simp
  refine (operatorRunAt_follows hsees hread hmid (by omega) Nat.le.refl).bind fun run j hj _ => ?_
  simp only
  cases resolve first run with
  | ok tree => exact follows_ok hj
  | error fault => exact follows_fail (Nat.le_succ_of_le hj)

end Expression

theorem closeGroupAt_follows {nesting i : Nat} (hsees : Sees ts us k) (e : Expr) (hi : i ≤ k) :
    Follows us k (closeGroupAt ts e i) (closeGroup nesting e (us.drop i)) := by
  rw [closeGroupAt]
  refine follows_look hsees hi fun t hdrop hnext => ?_
  rw [closeGroup]
  by_cases hclose : t.lexeme = .closeParen
  · rw [if_pos hclose, if_pos hclose]
    exact follows_ok (hnext (by simp [hclose]))
  · rw [if_neg hclose, if_neg hclose]
    exact follows_fail (Nat.succ_le_succ hi)

/-- How operands are read one level below, by index and from a list, if there is a level. -/
def FollowsBelow (us : List Token) (k : Nat) (below : Option (Nat → Reading (Expr × Nat))) (room : Nat) : Prop :=
  (below = none ∧ room = 0) ∨ ∃ read room', below = some read ∧ room = room' + 1 ∧
    ∀ i ≤ k, Follows us k (read i) (operand room' (us.drop i))

theorem operandOver_follows {rounds room i : Nat} {below : Option (Nat → Reading (Expr × Nat))}
    (hsees : Sees ts us k) (hrounds : us.length ≤ rounds) (hbelow : FollowsBelow us k below room) (hi : i ≤ k) :
    Follows us k (operandOver ts rounds below i) (operand room (us.drop i)) := by
  rw [operandOver]
  refine follows_look hsees hi fun t hdrop hnext => ?_
  rw [operand.eq_def]
  cases hl : t.lexeme with
  | number | identifier =>
    have hi' : i + 1 ≤ k := hnext (by simp [hl])
    simp only [hl]
    exact follows_ok hi'
  | openParen =>
    have hi' : i + 1 ≤ k := hnext (by simp [hl])
    simp only [hl]
    obtain ⟨rfl, rfl⟩ | ⟨read, room', rfl, rfl, hread⟩ := hbelow
    · exact follows_fail (Nat.succ_le_succ hi)
    · refine (expressionAt_follows hsees hread hi' hrounds).bind fun e j hj _ => ?_
      exact closeGroupAt_follows hsees e hj
  | operator d =>
    have hi' : i + 1 ≤ k := hnext (by simp [hl])
    simp only [hl]
    cases hd : d.denoted? with
    | none => exact follows_fail (Nat.succ_le_succ hi)
    | some op =>
      cases op with
      | add =>
        obtain ⟨rfl, rfl⟩ | ⟨read, room', rfl, rfl, hread⟩ := hbelow
        · exact follows_fail (Nat.succ_le_succ hi)
        · exact hread (i + 1) hi'
      | subtract =>
        obtain ⟨rfl, rfl⟩ | ⟨read, room', rfl, rfl, hread⟩ := hbelow
        · exact follows_fail (Nat.succ_le_succ hi)
        · refine (hread (i + 1) hi').bind fun e j hj _ => ?_
          simp only
          cases checkDepth t (.unary t.position .negate e) with
          | ok node => exact follows_ok hj
          | error fault => exact follows_fail (Nat.le_succ_of_le hj)
      | multiply | divide | modulo | floorDivide => exact follows_fail (Nat.succ_le_succ hi)
  | endOfInput | closeParen | other =>
    simp only [hl]
    exact follows_fail (Nat.succ_le_succ hi)

theorem operandAt_follows {rounds : Nat} (hsees : Sees ts us k) (hrounds : us.length ≤ rounds) (room : Nat) :
    ∀ i ≤ k, Follows us k (operandAt ts rounds room i) (operand room (us.drop i)) := by
  induction room with
  | zero => exact fun i hi => operandOver_follows hsees hrounds (.inl ⟨rfl, rfl⟩) hi
  | succ room ih => exact fun i hi => operandOver_follows hsees hrounds (.inr ⟨_, room, rfl, rfl, ih⟩) hi

end Follows

/-! ### Whole lists of tokens -/

/-- Lists that are the same up to an end of input show the same tokens up to there. -/
theorem sees_of_append {w : List Token} {stop : Token} (hstop : stop.isEnd = true) (more more' : List Token) :
    Sees (w ++ stop :: more) (w ++ stop :: more') w.length := by
  intro i hi
  have hlt : i < (w ++ stop :: more').length := by
    simp only [List.length_append, List.length_cons]
    omega
  have htoken : tokenAt (w ++ stop :: more) i = (w ++ stop :: more')[i] := by
    have hget : (w ++ stop :: more)[i]? = (w ++ stop :: more')[i]? := by
      rcases Nat.lt_or_eq_of_le hi with hlt | rfl
      · rw [List.getElem?_append_left hlt, List.getElem?_append_left hlt]
      · simp
    rw [tokenAt, hget, List.getElem?_eq_getElem hlt]
    rfl
  rw [htoken]
  refine ⟨List.drop_eq_getElem_cons hlt, fun hnot => ?_⟩
  rcases Nat.lt_or_eq_of_le hi with hlt | rfl
  · exact hlt
  · rw [Token.isEnd, decide_eq_true_eq] at hstop
    simp [hstop] at hnot

theorem wholeAt_follows {ts us : List Token} {k rounds : Nat} (hsees : Sees ts us k) (hrounds : us.length ≤ rounds) :
    Follows us k (wholeAt ts rounds) (whole us) := by
  have hexpr : Follows us k (expressionAt ts rounds (operandAt ts rounds depthLimit) 0)
      (expression (operand depthLimit) 0 us) :=
    expressionAt_follows hsees (operandAt_follows hsees hrounds depthLimit) (Nat.zero_le k) hrounds
  rw [wholeAt, whole]
  refine hexpr.bind fun e i hi _ => ?_
  have hlook : ∀ j ∈ [i] ++ [], j ≤ k := by simpa using hi
  have hdrop := (hsees i hi).1
  rw [bind_of_ok rfl]
  simp only [hdrop]
  cases hend : (tokenAt ts i).isEnd with
  | true => exact ⟨hlook, .inl ⟨e, i, hi, rfl, by rw [hdrop]; rfl⟩⟩
  | false => exact ⟨hlook, .inr ⟨_, i, Nat.le_succ_of_le hi, hdrop.symm, rfl, rfl⟩⟩

/-- The cursor finds the tree of every list that shows the same tokens up to an end of input. -/
theorem treeAt_eq {ts vs : List Token} {k rounds : Nat} (hsees : Sees (close ts) (close vs) k)
    (hrounds : (close vs).length ≤ rounds) :
    (treeAt rounds ts).outcome = some (tree vs) ∧ ∀ i ∈ (treeAt rounds ts).looks, i ≤ k := by
  rw [treeAt, tree]
  obtain ⟨hlooks, ⟨e, i, -, hx, hy⟩ | ⟨stop, i, -, -, hx, hy⟩⟩ := wholeAt_follows hsees hrounds
  · rw [bind_of_ok hx, hy]
    exact ⟨rfl, List.forall_mem_append.mpr ⟨hlooks, List.forall_mem_nil _⟩⟩
  · rw [bind_of_error hx, hy]
    exact ⟨rfl, hlooks⟩

/-- What is left to read when a reading has come to its end. -/
def leftToRead : Except Stop (Front Expr) → List Token
  | .ok front => front.2
  | .error stop => stop.rest

/-- All that closing a list does is to put something behind it. -/
theorem exists_close_eq (ts : List Token) : ∃ more, close ts = ts ++ more := by
  rw [close]
  split
  · rename_i hlast
    exact ⟨_, by rw [List.getLast?_eq_none_iff.mp hlast]; rfl⟩
  · split
    · exact ⟨[], (List.append_nil ts).symm⟩
    · exact ⟨_, rfl⟩

/-- **The cursor keeps to the first end of input.** Every list of tokens has a first end of input, at the latest
when it is closed. With as many rounds for its loop as there are tokens, the parser with a cursor comes to an end,
with the tree or the fault that the parser finds. On the way it looks at no token behind the first end of input,
and so never past the end of the list; nor does the parser take any. And whatever follows the first end of input,
the tree or the fault is the same, as it is if nothing follows. -/
theorem cursor_keeps_to_first_end (ts : List Token) :
    ∃ stop more, close ts = body ts ++ stop :: more ∧ stop.isEnd = true ∧ (∀ t ∈ body ts, t.isEnd = false) ∧
      (∀ rounds, (close ts).length ≤ rounds →
        (treeAt rounds ts).outcome = some (tree ts) ∧
        ∀ i ∈ (treeAt rounds ts).looks, i ≤ (body ts).length ∧ i < (close ts).length) ∧
      (∃ taken ≤ (body ts).length + 1, leftToRead (whole (close ts)) = (close ts).drop taken) ∧
      tree (body ts ++ [stop]) = tree ts ∧
      ∀ other, tree (body ts ++ stop :: other) = tree ts := by
  obtain ⟨stop, more, hclose, hstop⟩ := close_eq_body_append ts
  have hsees : Sees (close ts) (close ts) (body ts).length := by
    rw [hclose]
    exact sees_of_append hstop more more
  have hsame : ∀ other, tree (body ts ++ stop :: other) = tree ts := by
    intro other
    obtain ⟨behind, hbehind⟩ := exists_close_eq (body ts ++ stop :: other)
    rw [List.append_assoc, List.cons_append] at hbehind
    have hsees' : Sees (close ts) (close (body ts ++ stop :: other)) (body ts).length := by
      rw [hclose, hbehind]
      exact sees_of_append hstop more _
    -- with rounds enough for both lists, the cursor finds the same on either
    have hout := (treeAt_eq hsees (Nat.le_add_right _ (close (body ts ++ stop :: other)).length)).1
    have hout' := (treeAt_eq hsees' (Nat.le_add_left _ (close ts).length)).1
    exact Option.some.inj (hout'.symm.trans hout)
  refine ⟨stop, more, hclose, hstop, fun t ht => ?_, fun rounds hrounds => ?_, ?_, hsame [], hsame⟩
  · simpa using List.mem_takeWhile_imp ht
  · obtain ⟨hout, hlooks⟩ := treeAt_eq hsees hrounds
    refine ⟨hout, fun i hi => ⟨hlooks i hi, ?_⟩⟩
    have := hlooks i hi
    rw [hclose, List.length_append, List.length_cons]
    omega
  · obtain ⟨-, ⟨e, i, hi, -, hy⟩ | ⟨stop, i, hi, hrest, -, hy⟩⟩ := wholeAt_follows hsees (Nat.le_refl _)
    · exact ⟨i, Nat.le_succ_of_le hi, by rw [hy]; rfl⟩
    · exact ⟨i, hi, by rw [hy]; exact hrest⟩

/-- Behind `1` and an end of input, a closing parenthesis is not looked at. The end of input is looked at twice: it
is no operator, and it ends the expression. -/
example : (treeAt 3 [.ofLexeme (.number (.int 1)) 0, .ofLexeme .endOfInput 1, .ofLexeme .closeParen 1]).looks =
    [0, 1, 1] := by decide +kernel

end Abacus.Parse
