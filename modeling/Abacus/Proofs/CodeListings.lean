import Abacus.Proofs.Offsets
import Abacus.Proofs.StackBalance
import Abacus.Proofs.TreeListings

/-!
# Reading code off its listing

The listing of code numbers its steps, not its instructions: an operator takes three steps, so the numbers
run ahead of the instructions. The code can be read off the listing all the same. The first step of an
instruction tells what the instruction is, and with that how many steps it takes, so it is clear where the
next one starts. Only the positions of the instructions cannot be read off, for they are not listed.
-/

namespace Abacus

theorem Operator.step_injective : Function.Injective step := injective_of_forall (by decide)

namespace Instr

/-- The instruction without its position. -/
def unplaced (i : Instr) : Instr := i.relocate fun _ => 0

/-- `Takes i steps`: the instruction takes these steps. -/
inductive Takes : Instr → List String → Prop where
  | push {p n : Int} : Takes (.push p (.int n)) ["Push Number " ++ toString n ++ " onto stack"]
  | negate {p : Int} : Takes (.negate p) ["Negate the value on top of the stack"]
  | apply {p : Int} {op : Operator} :
      Takes (.apply p (.operator op)) ["Pop values A and B from stack", op.step, "Push result onto stack"]
  | load {p : Int} {name : String} : Takes (.load p name) ["Push value of '" ++ name ++ "' onto stack"]

/-! ### The steps of an instruction -/

theorem Stands.takes {i : Instr} (h : i.Stands Lexeme.Listable) : ∃ steps, i.steps? = some steps ∧ i.Takes steps := by
  cases i with
  | push p v =>
    obtain ⟨n, rfl, hn⟩ := h
    exact ⟨_, by rw [steps?, Number.text?_of_lt hn]; rfl, .push⟩
  | negate p => exact ⟨_, rfl, .negate⟩
  | apply p d =>
    obtain ⟨op, rfl⟩ := h
    exact ⟨_, rfl, .apply⟩
  | load p name => exact ⟨_, rfl, .load⟩
  | foreign object => exact h.elim

theorem Takes.ne_nil {i : Instr} {steps : List String} (h : i.Takes steps) : steps ≠ [] := by
  cases h <;> simp

theorem Takes.length_eq {i : Instr} {steps : List String} (h : i.Takes steps) :
    steps.length = if i.isApply then 3 else 1 := by
  cases h <;> rfl

/-- Where two lists of steps begin with those of an instruction, the instructions differ in their positions only,
and what stands behind their steps is the same. -/
theorem Takes.append_inj {i i' : Instr} {steps steps' rest rest' : List String} (h : i.Takes steps)
    (h' : i'.Takes steps') (heq : steps ++ rest = steps' ++ rest') : i.unplaced = i'.unplaced ∧ rest = rest' := by
  -- the first step is enough to tell the kinds of instructions apart
  have hfirst : (steps ++ rest).head?.map String.toList = (steps' ++ rest').head?.map String.toList := by rw [heq]
  cases h with
  | push =>
    cases h' with
    | push =>
      obtain ⟨hstep, hrest⟩ := List.cons.inj heq
      rw [String.append_left_inj, String.append_right_inj] at hstep
      rw [unplaced, unplaced, relocate, relocate, int_toString_inj hstep]
      exact ⟨rfl, hrest⟩
    | negate | apply | load => simp at hfirst
  | negate =>
    cases h' with
    | negate => exact ⟨rfl, (List.cons.inj heq).2⟩
    | push | apply | load => simp at hfirst
  | apply =>
    cases h' with
    | apply =>
      simp only [List.cons_append, List.nil_append, List.cons.injEq, true_and] at heq
      rw [unplaced, unplaced, relocate, relocate, Operator.step_injective heq.1]
      exact ⟨rfl, heq.2⟩
    | push | negate | load => simp at hfirst
  | load =>
    cases h' with
    | load =>
      obtain ⟨hstep, hrest⟩ := List.cons.inj heq
      rw [String.append_left_inj, String.append_right_inj] at hstep
      rw [unplaced, unplaced, relocate, relocate, hstep]
      exact ⟨rfl, hrest⟩
    | push | negate | apply => simp at hfirst

theorem steps?_unplaced (i : Instr) : i.unplaced.steps? = i.steps? := by
  cases i with
  | push | negate | apply | load => rfl
  | foreign object => simp only [unplaced, relocate, steps?, Foreign.typeName_relocate]

/-! ### The steps of code -/

/-- Every instruction of the code takes its row of steps. -/
theorem exists_rows {code : List Instr} (h : ∀ i ∈ code, i.Stands Lexeme.Listable) :
    ∃ rows, code.mapM steps? = some rows ∧ List.Forall₂ Takes code rows := by
  induction code with
  | nil => exact ⟨[], rfl, .nil⟩
  | cons i code ih =>
    obtain ⟨hi, hcode⟩ := List.forall_mem_cons.mp h
    obtain ⟨steps, hsteps, htakes⟩ := hi.takes
    obtain ⟨rows, hrows, hall⟩ := ih hcode
    exact ⟨steps :: rows, by simp [hsteps, hrows], .cons htakes hall⟩

/-- An operator takes two steps more than any other instruction. -/
theorem length_flatten_rows {code : List Instr} {rows : List (List String)} (h : List.Forall₂ Takes code rows) :
    rows.flatten.length = code.length + 2 * code.countP isApply := by
  induction h with
  | nil => rfl
  | @cons i steps code rows htakes _ ih =>
    rw [List.flatten_cons, List.length_append, htakes.length_eq, ih, List.length_cons, List.countP_cons]
    split <;> omega

/-- The rows tell the instructions, but for their positions. -/
theorem flatten_rows_inj {code code' : List Instr} {rows rows' : List (List String)} (h : List.Forall₂ Takes code rows)
    (h' : List.Forall₂ Takes code' rows') (heq : rows.flatten = rows'.flatten) :
    code.map unplaced = code'.map unplaced := by
  induction h generalizing code' rows' with
  | nil =>
    cases h' with
    | nil => rfl
    | cons htakes' => exact absurd (List.append_eq_nil_iff.mp heq.symm).1 htakes'.ne_nil
  | cons htakes _ ih =>
    cases h' with
    | nil => exact absurd (List.append_eq_nil_iff.mp heq).1 htakes.ne_nil
    | cons htakes' hall' =>
      obtain ⟨hi, hrest⟩ := htakes.append_inj htakes' heq
      rw [List.map_cons, List.map_cons, hi, ih hall' hrest]

/-! ### Numbers -/

/-- The steps with their numbers. -/
def numbered (steps : List String) : List String := steps.mapIdx fun k step => toString k ++ ": " ++ step

theorem numbered_injective : Function.Injective numbered := by
  intro steps steps' heq
  refine List.ext_getElem? fun k => ?_
  have hline := congrArg (fun lines => lines[k]?) heq
  simp only [numbered, List.getElem?_mapIdx] at hline
  exact Option.map_injective (fun _ _ h => (String.append_right_inj _).mp h) hline

theorem exists_step_of_numbered {steps : List String} {k : Nat} {line : String} (h : (numbered steps)[k]? = some line) :
    ∃ step, line = toString k ++ ": " ++ step := by
  rw [numbered, List.getElem?_mapIdx] at h
  obtain ⟨step, -, rfl⟩ := Option.map_eq_some_iff.mp h
  exact ⟨step, rfl⟩

/-- The listing of code numbers the steps of its instructions, and one step more. -/
theorem exists_listing {code : List Instr} (h : ∀ i ∈ code, i.Stands Lexeme.Listable) :
    ∃ rows, List.Forall₂ Takes code rows ∧
      listing? code = some (numbered (rows.flatten ++ ["Pop final result from stack and return"])) := by
  obtain ⟨rows, hrows, hall⟩ := exists_rows h
  exact ⟨rows, hall, by rw [listing?, allSteps?, hrows]; rfl⟩

/-- The listing does not show where the instructions come from. -/
theorem listing?_map_unplaced (code : List Instr) : listing? (code.map unplaced) = listing? code := by
  have hsteps : steps? ∘ unplaced = steps? := funext steps?_unplaced
  rw [listing?, listing?, allSteps?, allSteps?, List.mapM_map, hsteps]

end Instr

/-- **The listing of code is numbered right and faithful.** Let code push integers within the limit on digits,
negate, apply operators and load names. It has a listing, which has a line for each instruction, two more for
each operator and one more at the end, and every line starts with its number. And two such lists of
instructions have the same listing if and only if they differ in the positions of their instructions only. -/
theorem code_listing_faithful :
    (∀ code : List Instr, (∀ i ∈ code, i.Stands Lexeme.Listable) → ∃ lines, Instr.listing? code = some lines ∧
      lines.length = code.length + 2 * code.countP Instr.isApply + 1 ∧
      ∀ (k : Nat) (line : String), lines[k]? = some line → ∃ step, line = toString k ++ ": " ++ step) ∧
    ∀ code code' : List Instr, (∀ i ∈ code, i.Stands Lexeme.Listable) → (∀ i ∈ code', i.Stands Lexeme.Listable) →
      (Instr.listing? code = Instr.listing? code' ↔ code.map Instr.unplaced = code'.map Instr.unplaced) := by
  constructor
  · intro code h
    obtain ⟨rows, hall, hlisting⟩ := Instr.exists_listing h
    refine ⟨_, hlisting, ?_, fun k line => Instr.exists_step_of_numbered⟩
    rw [Instr.numbered, List.length_mapIdx, List.length_append, Instr.length_flatten_rows hall, List.length_singleton]
  · intro code code' h h'
    obtain ⟨rows, hall, hlisting⟩ := Instr.exists_listing h
    obtain ⟨rows', hall', hlisting'⟩ := Instr.exists_listing h'
    constructor
    · intro heq
      rw [hlisting, hlisting', Option.some.injEq] at heq
      exact Instr.flatten_rows_inj hall hall' (List.append_cancel_right (Instr.numbered_injective heq))
    · intro heq
      rw [← Instr.listing?_map_unplaced code, heq, Instr.listing?_map_unplaced]

/-- Code that pushes `-7`, loads a name and applies floor division is listed on six lines. The same code with other
positions has the same listing, and code that loads another name has not. -/
theorem code_listing_faithful_reserved_word :
    (∃ lines, Instr.listing? [.push 0 (.int (-7)), .load 3 "mod", .apply 1 (.operator .floorDivide)] = some lines ∧
      lines.length = 6) ∧
    Instr.listing? [.push 0 (.int (-7)), .load 3 "mod", .apply 1 (.operator .floorDivide)] =
      Instr.listing? [.push 5 (.int (-7)), .load 2 "mod", .apply 2 (.operator .floorDivide)] ∧
    Instr.listing? [.push 0 (.int (-7)), .load 3 "mod", .apply 1 (.operator .floorDivide)] ≠
      Instr.listing? [.push 0 (.int (-7)), .load 3 "div", .apply 1 (.operator .floorDivide)] := by
  have hmod : IsName "mod" := ⟨'m', ['o', 'd'], rfl, rfl, List.all_eq_true.mp rfl⟩
  have hdiv : IsName "div" := ⟨'d', ['i', 'v'], rfl, rfl, List.all_eq_true.mp rfl⟩
  have hcode : ∀ p q r name, IsName name →
      ∀ i ∈ [Instr.push p (.int (-7)), .load q name, .apply r (.operator .floorDivide)], i.Stands Lexeme.Listable := by
    intro p q r name hname
    simp only [List.forall_mem_cons, List.not_mem_nil, false_implies, implies_true, and_true]
    exact ⟨⟨-7, rfl, by decide +kernel⟩, hname, .floorDivide, rfl⟩
  obtain ⟨lines, hlines, hlength, -⟩ := code_listing_faithful.1 _ (hcode 0 3 1 "mod" hmod)
  refine ⟨⟨lines, hlines, hlength⟩, ?_, fun heq => ?_⟩
  · exact (code_listing_faithful.2 _ _ (hcode 0 3 1 "mod" hmod) (hcode 5 2 2 "mod" hmod)).mpr rfl
  · have hsame := (code_listing_faithful.2 _ _ (hcode 0 3 1 "mod" hmod) (hcode 0 3 1 "div" hdiv)).mp heq
    simp [Instr.unplaced, Instr.relocate] at hsame

end Abacus
