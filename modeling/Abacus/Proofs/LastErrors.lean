import Abacus.Proofs.Results

/-!
# The last error of each user

A desk keeps the last errors of several users, who call the calculator without waiting for each
other. A calculation goes to the desk twice: it clears its slot before it starts, and records an
error there when it has ended with one. In between, calculations on other slots may clear and
record as they like. Calls on one slot do not overlap: a slot belongs to one user, or to several
who take turns.

So there are many orders in which the accesses of some calls can reach the desk; `Interleaves` are
all of them. Every access leaves the other slots alone, and forgets what its own slot held before.
From this it follows that a slot holds what its own last access left, that all orders leave the
same desk, and that this is the one that the calls leave one after another.
-/

namespace Abacus

open Calculation

/-! ### Calls -/

/-- What can be asked of the calculator. -/
inductive Call where
  /-- The code of a source text. -/
  | prepare (o : Options) (source : String)
  /-- The result of code. -/
  | carryOut (program : List Instr)
  /-- The value of a source text, or what is wrong with it. -/
  | calculate (o : Options) (source : String)

/-- Does the call take a source text all the way to its value? -/
def Call.isCalculation : Call → Bool
  | calculate .. => true
  | prepare .. | carryOut _ => false

/-- A call of a user whose last error is kept in a slot. Users share a slot by naming the same one. -/
structure Use where
  /-- The slot. -/
  slot : Nat
  /-- What is asked. -/
  call : Call

/-- The desk when a call is over, if nothing else happens in the meantime. -/
def Desk.after (d : Desk) (u : Use) : Desk :=
  match u.call with
  | .calculate o source => (d.calculate u.slot o source).2
  | .prepare .. | .carryOut _ => d

/-! ### Accesses -/

/-- A single access to a desk. -/
inductive Access where
  /-- Forget the last error of a slot. -/
  | clear (slot : Nat)
  /-- Remember an error in a slot. -/
  | record (slot : Nat) (e : Error)

namespace Access

/-- The slot. -/
def slot : Access → Nat
  | clear slot | record slot _ => slot

/-- What the slot holds after the access. -/
def leaves : Access → Option Diagnostic
  | clear _ => none
  | record _ e => some e.diagnostic

end Access

namespace Desk

/-- The desk after an access. -/
def access (d : Desk) : Access → Desk
  | .clear slot => d.clear slot
  | .record slot e => d.record slot e

/-- The desk after several accesses, the first one first. -/
def accessAll (d : Desk) (accesses : List Access) : Desk := accesses.foldl access d

/-- A desk with so many slots, all of them clear. -/
def ofSize : Nat → Desk
  | 0 => empty
  | n + 1 => (ofSize n).addSlot

end Desk

/-- What a calculation does at the desk: it clears the slot, and records an error if it ends with one.
Other calls do nothing there. -/
def Use.accesses (u : Use) : List Access :=
  match u.call with
  | .calculate o source =>
    match (Calculation.calculate o source).result with
    | .ok r => .clear u.slot :: r.error?.toList.map (.record u.slot)
    | .error _ => [.clear u.slot]
  | .prepare .. | .carryOut _ => []

/-- `Interleaves uses accesses`: the accesses are those of the calls, in an order in which the calls on
each slot come one after another. -/
def Interleaves (uses : List Use) (accesses : List Access) : Prop :=
  ∀ slot, accesses.filter (·.slot = slot) = (uses.filter (·.slot = slot)).flatMap Use.accesses

/-! ### One call -/

/-- A call that is not interrupted leaves what its accesses leave. -/
theorem Desk.after_eq_accessAll (d : Desk) (u : Use) : d.after u = d.accessAll u.accesses := by
  obtain ⟨slot, call⟩ := u
  cases call with
  | prepare | carryOut => rfl
  | calculate o source =>
    simp only [after, Use.accesses, Desk.calculate]
    cases (Calculation.calculate o source).result with
    | error failure => rfl
    | ok r =>
      obtain ⟨text, success, value, error, ts, tree, code⟩ := r
      cases error <;> rfl

theorem Use.slot_of_mem_accesses {u : Use} {a : Access} (h : a ∈ u.accesses) : a.slot = u.slot := by
  obtain ⟨slot, call⟩ := u
  cases call with
  | prepare | carryOut => cases h
  | calculate o source =>
    simp only [accesses] at h
    split at h
    · rename_i r hr
      rcases List.mem_cons.mp h with rfl | h
      · rfl
      · obtain ⟨e, -, rfl⟩ := List.mem_map.mp h
        rfl
    · rw [List.mem_singleton.mp h]
      rfl

/-- The last access of a calculation leaves its diagnostic, and nothing if it has none. -/
theorem Use.getLast?_accesses (slot : Nat) (o : Options) (source : String) :
    ∃ a, (Use.accesses ⟨slot, .calculate o source⟩).getLast? = some a ∧
      a.leaves = match (Calculation.calculate o source).result with
        | .ok r => r.diagnostic
        | .error _ => none := by
  simp only [accesses]
  cases (Calculation.calculate o source).result with
  | error failure => exact ⟨_, rfl, rfl⟩
  | ok r =>
    obtain ⟨text, success, value, error, ts, tree, code⟩ := r
    cases error <;> exact ⟨_, rfl, rfl⟩

/-! ### Many accesses -/

namespace Desk

/-- What an access does to a slot. -/
theorem getElem?_access (d : Desk) (a : Access) (slot : Nat) :
    (d.access a).slots[slot]? =
      if a.slot = slot then d.slots[slot]?.map fun _ => a.leaves else d.slots[slot]? := by
  cases a with
  | clear i | record i e =>
    show (d.slots.set i _)[slot]? = _
    by_cases h : i = slot
    · subst h
      rw [List.getElem?_set_self', Access.slot, if_pos rfl]
      rfl
    · rw [List.getElem?_set_ne h, Access.slot, if_neg h]

/-- A slot holds what its own last access left, whatever happened to the others. -/
theorem getElem?_accessAll (d : Desk) (accesses : List Access) (slot : Nat) :
    (d.accessAll accesses).slots[slot]? =
      match (accesses.filter (·.slot = slot)).getLast? with
      | none => d.slots[slot]?
      | some a => d.slots[slot]?.map fun _ => a.leaves := by
  induction accesses generalizing d with
  | nil => rfl
  | cons a accesses ih =>
    show ((d.access a).accessAll accesses).slots[slot]? = _
    rw [ih, getElem?_access]
    by_cases h : a.slot = slot
    · -- the access is the last one on the slot, or the later ones forget it
      rw [if_pos h, List.filter_cons_of_pos (by simpa using h), List.getLast?_cons]
      cases (accesses.filter (·.slot = slot)).getLast? with
      | none => rfl
      | some b => exact Option.map_map ..
    · rw [if_neg h, List.filter_cons_of_neg (by simpa using h)]

/-- Only the order on each slot counts. -/
theorem accessAll_congr {accesses accesses' : List Access}
    (h : ∀ slot, accesses.filter (·.slot = slot) = accesses'.filter (·.slot = slot)) (d : Desk) :
    d.accessAll accesses = d.accessAll accesses' := by
  have hslots : (d.accessAll accesses).slots = (d.accessAll accesses').slots := by
    apply List.ext_getElem?
    intro slot
    rw [getElem?_accessAll, getElem?_accessAll, h slot]
  exact congrArg Desk.mk hslots

theorem foldl_after (d : Desk) (uses : List Use) : uses.foldl after d = d.accessAll (uses.flatMap Use.accesses) := by
  induction uses generalizing d with
  | nil => rfl
  | cons u uses ih =>
    rw [List.foldl_cons, ih, after_eq_accessAll, List.flatMap_cons, accessAll, accessAll, accessAll, List.foldl_append]

theorem slots_ofSize (n : Nat) : (ofSize n).slots = List.replicate n none := by
  induction n with
  | zero => rfl
  | succ n ih => rw [ofSize, addSlot, ih, List.replicate_succ']

end Desk

/-! ### Interleaved calls -/

theorem filter_flatMap_accesses (uses : List Use) (slot : Nat) :
    (uses.flatMap Use.accesses).filter (·.slot = slot) = (uses.filter (·.slot = slot)).flatMap Use.accesses := by
  induction uses with
  | nil => rfl
  | cons u uses ih =>
    rw [List.flatMap_cons, List.filter_append, ih]
    by_cases h : u.slot = slot
    · have hall : u.accesses.filter (·.slot = slot) = u.accesses := by
        rw [List.filter_eq_self]
        intro a ha
        simpa [Use.slot_of_mem_accesses ha] using h
      rw [hall, List.filter_cons_of_pos (by simpa using h), List.flatMap_cons]
    · have hnone : u.accesses.filter (·.slot = slot) = [] := by
        rw [List.filter_eq_nil_iff]
        intro a ha
        simpa [Use.slot_of_mem_accesses ha] using h
      rw [hnone, List.nil_append, List.filter_cons_of_neg (by simpa using h)]

/-- Interleaved calls leave what they leave one after another. -/
theorem Interleaves.accessAll_eq {uses : List Use} {accesses : List Access} (h : Interleaves uses accesses) (d : Desk) :
    d.accessAll accesses = uses.foldl Desk.after d := by
  rw [Desk.foldl_after]
  refine Desk.accessAll_congr (fun slot => ?_) d
  rw [h slot, filter_flatMap_accesses]

theorem flatMap_accesses_eq_nil {uses : List Use} {slot : Nat}
    (h : ∀ u ∈ uses, u.slot = slot → u.call.isCalculation = false) :
    (uses.filter (·.slot = slot)).flatMap Use.accesses = [] := by
  rw [List.flatMap_eq_nil_iff]
  intro u hu
  obtain ⟨hmem, hslot⟩ := List.mem_filter.mp hu
  have hcall := h u hmem (by simpa using hslot)
  obtain ⟨i, call⟩ := u
  cases call with
  | prepare | carryOut => rfl
  | calculate => cases hcall

/-- **The last error of a user is that of the latest calculation.** Let a desk have any number of clear
slots, and let the accesses of any calls reach it in any order in which the calls on each slot come one
after another. Then each slot holds the diagnostic of the latest calculation on it, which is none if
that gave a value, and it is clear if that calculation failed, or if there was none. The desk is the one
that the calls leave one after another, and calls that are no calculations leave a desk as it is. -/
theorem last_error_of_latest_calculation {n slot : Nat} (hslot : slot < n) {uses : List Use} {accesses : List Access}
    (h : Interleaves uses accesses) :
    (∀ before later o source, uses = before ++ ⟨slot, .calculate o source⟩ :: later →
      (∀ u ∈ later, u.slot = slot → u.call.isCalculation = false) →
      ((Desk.ofSize n).accessAll accesses).last slot =
        match (Calculation.calculate o source).result with
        | .ok r => r.diagnostic
        | .error _ => none) ∧
    ((∀ u ∈ uses, u.slot = slot → u.call.isCalculation = false) →
      ((Desk.ofSize n).accessAll accesses).last slot = none) ∧
    (Desk.ofSize n).accessAll accesses = uses.foldl Desk.after (Desk.ofSize n) ∧
    ∀ (d : Desk) (u : Use), u.call.isCalculation = false → d.after u = d := by
  refine ⟨?_, ?_, h.accessAll_eq _, ?_⟩
  · intro before later o source huses hlater
    obtain ⟨a, ha, hleaves⟩ := Use.getLast?_accesses slot o source
    have hlast : (accesses.filter (·.slot = slot)).getLast? = some a := by
      rw [h slot, huses, List.filter_append, List.filter_cons_of_pos (by simp), List.flatMap_append, List.flatMap_cons,
        flatMap_accesses_eq_nil hlater, List.append_nil, List.getLast?_append, ha]
      rfl
    rw [Desk.last, Desk.getElem?_accessAll, hlast, Desk.slots_ofSize, List.getElem?_replicate_of_lt hslot, ← hleaves]
    rfl
  · intro hnone
    rw [Desk.last, Desk.getElem?_accessAll, h slot, flatMap_accesses_eq_nil hnone, List.getLast?_nil,
      Desk.slots_ofSize, List.getElem?_replicate_of_lt hslot]
    rfl
  · intro d u hu
    obtain ⟨i, call⟩ := u
    cases call with
    | prepare | carryOut => rfl
    | calculate => cases hu

/-- Two users calculate `7@` and `1` at the same time, on slots of their own. The second one has had an
error before, and it is forgotten; the first one records its error at the very end. -/
theorem last_error_of_latest_calculation_overlapping :
    ((Desk.ofSize 2).accessAll [.clear 1, .record 1 (shown .standard "@" (.ofScan (some "@") ⟨.strayCharacter '@', 0⟩)),
        .clear 0, .clear 1,
        .record 0 (shown .standard "7@" (.ofScan (some "7@") ⟨.strayCharacter '@', 1⟩))]).last 0 =
      some ⟨"Unexpected character \"@\"", some (.ofOffset 1)⟩ ∧
    ((Desk.ofSize 2).accessAll [.clear 1, .record 1 (shown .standard "@" (.ofScan (some "@") ⟨.strayCharacter '@', 0⟩)),
        .clear 0, .clear 1,
        .record 0 (shown .standard "7@" (.ofScan (some "7@") ⟨.strayCharacter '@', 1⟩))]).last 1 = none := by
  have hfirst : (Calculation.calculate .standard "@").result = .ok ⟨"@",
      false, none, some (shown .standard "@" (.ofScan (some "@") ⟨.strayCharacter '@', 0⟩)), [], none, []⟩ :=
    result_of_scan_fault (by decide +kernel)
  have hsecond : (Calculation.calculate .standard "7@").result = .ok ⟨"7@",
      false, none, some (shown .standard "7@" (.ofScan (some "7@") ⟨.strayCharacter '@', 1⟩)), [], none, []⟩ :=
    result_of_scan_fault (by decide +kernel)
  have hthird : (Calculation.calculate .standard "1").result = .ok ⟨"1", true, some (.int 1), none,
      [.ofLexeme (.number (.int 1)) 0, .ofLexeme .endOfInput 1], some (.number 0 (.int 1)), [.push 0 (.int 1)]⟩ :=
    result_of_eval (e := .number 0 (.int 1)) (by decide +kernel) (by decide +kernel) rfl
  have h : Interleaves [⟨1, .calculate .standard "@"⟩, ⟨0, .calculate .standard "7@"⟩, ⟨1, .calculate .standard "1"⟩]
      [.clear 1, .record 1 (shown .standard "@" (.ofScan (some "@") ⟨.strayCharacter '@', 0⟩)), .clear 0, .clear 1,
        .record 0 (shown .standard "7@" (.ofScan (some "7@") ⟨.strayCharacter '@', 1⟩))] := by
    intro slot
    by_cases h0 : (0 : Nat) = slot
    · subst h0
      simp [Access.slot, Use.accesses, hsecond]
    · by_cases h1 : 1 = slot
      · subst h1
        simp [Access.slot, Use.accesses, hfirst, hthird]
      · simp [Access.slot, h0, h1]
  obtain ⟨hzero, -⟩ := last_error_of_latest_calculation (show 0 < 2 by decide) h
  obtain ⟨hone, -⟩ := last_error_of_latest_calculation (show 1 < 2 by decide) h
  refine ⟨?_, ?_⟩
  · rw [hzero [⟨1, .calculate .standard "@"⟩] [⟨1, .calculate .standard "1"⟩] .standard "7@" rfl (by simp), hsecond]
    rfl
  · rw [hone [⟨1, .calculate .standard "@"⟩, ⟨0, .calculate .standard "7@"⟩] [] .standard "1" rfl (by simp), hthird]
    rfl

end Abacus
