/-!
# Results and faults

How a computation that may fail is taken apart: what follows a result, and what
follows a fault.
-/

namespace Except

variable {ε ε' α β : Type}

@[simp] theorem ok_bind (a : α) (f : α → Except ε β) : (Except.ok a >>= f) = f a := rfl

@[simp] theorem error_bind (fault : ε) (f : α → Except ε β) :
    (Except.error fault >>= f) = .error fault := rfl

@[simp] theorem mapError_ok (a : α) (f : ε → ε') : (Except.ok a).mapError f = .ok a := rfl

@[simp] theorem mapError_error (fault : ε) (f : ε → ε') :
    (Except.error fault : Except ε α).mapError f = .error (f fault) := rfl

/-- The computation with its results and its faults replaced. -/
def bimap {α' : Type} (onFault : ε → ε') (onResult : α → α') : Except ε α → Except ε' α'
  | .ok a => .ok (onResult a)
  | .error fault => .error (onFault fault)

@[simp] theorem bimap_ok {α' : Type} (onFault : ε → ε') (onResult : α → α') (a : α) :
    (Except.ok a).bimap onFault onResult = .ok (onResult a) := rfl

@[simp] theorem bimap_error {α' : Type} (onFault : ε → ε') (onResult : α → α') (fault : ε) :
    (Except.error fault).bimap onFault onResult = .error (onFault fault) := rfl

/-- If each of two steps has its results and its faults replaced, then so have the two together. The second
one goes on from what the result of the first was replaced with. -/
theorem bimap_bind {α' β' : Type} {onFault : ε → ε'} {onResult : α → α'} {onResult' : β → β'} {x : Except ε α}
    {x' : Except ε' α'} {f : α → Except ε β} {f' : α' → Except ε' β'} (hx : x' = x.bimap onFault onResult)
    (hf : ∀ a, x = .ok a → f' (onResult a) = (f a).bimap onFault onResult') :
    (x' >>= f') = (x >>= f).bimap onFault onResult' := by
  subst hx
  cases x with
  | error fault => rfl
  | ok a => exact hf a rfl

/-- Two steps give a result when the first gives one and the second gives the result
from there. -/
theorem bind_eq_ok_iff {x : Except ε α} {f : α → Except ε β} {b : β} :
    (x >>= f) = .ok b ↔ ∃ a, x = .ok a ∧ f a = .ok b := by
  cases x with
  | error fault => simp
  | ok a => simp

/-- Two steps fail when the first does, or when the second does after it. -/
theorem bind_eq_error_iff {x : Except ε α} {f : α → Except ε β} {fault : ε} :
    (x >>= f) = .error fault ↔ x = .error fault ∨ ∃ a, x = .ok a ∧ f a = .error fault := by
  cases x with
  | error fault => simp
  | ok a => simp

end Except

/-- A list of steps has results when each step has one. -/
theorem List.exists_mapM_eq_some {α β : Type} {f : α → Option β} {l : List α}
    (h : ∀ a ∈ l, ∃ b, f a = some b) : ∃ bs, l.mapM f = some bs := by
  induction l with
  | nil => exact ⟨[], rfl⟩
  | cons a l ih =>
    obtain ⟨b, hb⟩ := h a (List.mem_cons_self ..)
    obtain ⟨bs, hbs⟩ := ih fun a' ha' => h a' (List.mem_cons_of_mem _ ha')
    exact ⟨b :: bs, by simp [hb, hbs]⟩

theorem List.map_of_mapM_eq_some {α β : Type} {f : α → Option β} {l : List α} {bs : List β}
    (h : l.mapM f = some bs) : l.map f = bs.map some := by
  induction l generalizing bs with
  | nil =>
    cases h
    rfl
  | cons a l ih =>
    rw [List.mapM_cons] at h
    obtain ⟨b, hb, h⟩ := Option.bind_eq_some_iff.mp h
    obtain ⟨bs', hbs', h⟩ := Option.bind_eq_some_iff.mp h
    cases h
    rw [List.map_cons, List.map_cons, hb, ih hbs']

/-- Every result is that of a step. -/
theorem List.exists_of_mem_mapM {α β : Type} {f : α → Option β} {l : List α} {bs : List β}
    (h : l.mapM f = some bs) {b : β} (hb : b ∈ bs) : ∃ a ∈ l, f a = some b := by
  have hmem : some b ∈ l.map f := by
    rw [map_of_mapM_eq_some h]
    exact List.mem_map_of_mem hb
  exact List.mem_map.mp hmem
