import Abacus.Proofs.Evaluation

/-!
# The balance of the stack

Code that was made by hand need not be the code of an expression, and the machine then finds the stack out of
balance. How many numbers are on the stack can be told without running the code: each number that is pushed
adds one, each binary operator takes one away, and no other instruction that is carried out changes their
number. This balance is exact as long as no instruction fails, and so it tells which instructions find too
little on the stack, and what is left at the end.
-/

namespace Abacus

open Machine (Halt Stack exec run step)

namespace Instr

def isPush : Instr → Bool
  | push .. => true
  | _ => false

def isApply : Instr → Bool
  | apply .. => true
  | _ => false

/-- The instruction finds fewer numbers than it needs on a stack of `height` numbers. An operator that is
unknown is found out before anything is popped. -/
def Starves (height : Int) : Instr → Prop
  | negate _ => height = 0
  | apply _ value => (∃ op, value.denoted? = some op) ∧ height ≤ 1
  | push .. | load .. | foreign _ => False

end Instr

/-- The numbers that code pushes, less one for each binary operator. -/
def balance (code : List Instr) : Int := code.countP Instr.isPush - code.countP Instr.isApply

/-- The instruction with the number `i` is the first one that fails. -/
def FailsAt (code : List Instr) (i : Nat) (instr : Instr) : Prop :=
  code[i]? = some instr ∧ ∃ s halt, exec (code.take i) [] = .ok s ∧ step instr s = .error halt

/-! ### One instruction -/

theorem balance_cons (i : Instr) (code : List Instr) : balance (i :: code) = balance [i] + balance code := by
  unfold balance
  rw [List.countP_cons, List.countP_cons, List.countP_singleton, List.countP_singleton]
  split <;> split <;> omega

/-- An instruction that is carried out changes the height of the stack by its balance. -/
theorem length_of_step {i : Instr} {s s' : Stack} (h : step i s = .ok s') :
    (s'.length : Int) = s.length + balance [i] := by
  cases i with
  | push p value =>
    cases h
    simp [balance, Instr.isPush, Instr.isApply]
  | negate p =>
    cases s with
    | nil => cases h
    | cons a s =>
      cases h
      simp [balance, Instr.isPush, Instr.isApply]
  | apply p value =>
    simp only [step] at h
    split at h
    · cases h
    · split at h
      · cases h
        have hbalance : balance [.apply p value] = -1 := rfl
        simp only [List.length_cons, hbalance]
        omega
      · cases h
    · cases h
  | load | foreign => cases h

/-- An instruction that fails has found too little on the stack, or fails for a reason of its own. -/
theorem fault_of_step {i : Instr} {s : Stack} {halt : Halt} (h : step i s = .error halt) :
    (halt.fault = .emptyStack ↔ i.Starves s.length) ∧ ∀ depth, halt.fault ≠ .unbalanced depth := by
  cases i with
  | push p value => cases h
  | negate p =>
    cases s with
    | nil =>
      cases h
      simp [Instr.Starves]
    | cons a s => cases h
  | apply p value =>
    simp only [step] at h
    cases hop : value.denoted? with
    | none =>
      rw [hop] at h
      cases h
      simp [Instr.Starves, hop]
    | some op =>
      rw [hop] at h
      rcases s with _ | ⟨b, _ | ⟨a, s⟩⟩
      · cases h
        simp [Instr.Starves, hop]
      · cases h
        simp [Instr.Starves, hop]
      · cases hab : op.apply a b with
        | ok v => simp [hab] at h
        | error fault =>
          simp only [hab, Except.error.injEq] at h
          subst h
          refine ⟨iff_of_false (by simp) ?_, by simp⟩
          rintro ⟨-, hshort⟩
          rw [List.length_cons, List.length_cons] at hshort
          omega
  | load p name | foreign object =>
    cases h
    simp [Instr.Starves]

/-! ### Whole code -/

/-- As long as no instruction fails, the height of the stack changes by the balance of the code. -/
theorem length_of_exec {code : List Instr} {s s' : Stack} (h : exec code s = .ok s') :
    (s'.length : Int) = s.length + balance code := by
  induction code generalizing s with
  | nil =>
    cases h
    simp [balance]
  | cons i code ih =>
    obtain ⟨s₁, hi, hcode⟩ := Except.bind_eq_ok_iff.mp h
    have hstep := length_of_step hi
    have hrest := ih hcode
    rw [balance_cons]
    omega

/-- Code fails where one of its instructions does, after those before it were carried out. -/
theorem exec_eq_error_iff {code : List Instr} {s : Stack} {halt : Halt} :
    exec code s = .error halt ↔
      ∃ i instr s', code[i]? = some instr ∧ exec (code.take i) s = .ok s' ∧ step instr s' = .error halt := by
  constructor
  · intro h
    induction code generalizing s with
    | nil => cases h
    | cons instr code ih =>
      obtain h | ⟨s₁, hi, h⟩ := Except.bind_eq_error_iff.mp h
      · exact ⟨0, instr, s, rfl, rfl, h⟩
      · obtain ⟨i, instr', s', hget, hexec, hstep⟩ := ih h
        refine ⟨i + 1, instr', s', hget, ?_, hstep⟩
        rw [List.take_succ_cons, exec, hi]
        exact hexec
  · rintro ⟨i, instr, s', hget, hexec, hstep⟩
    obtain ⟨hi, rfl⟩ := List.getElem?_eq_some_iff.mp hget
    rw [← List.take_append_drop i code, exec_append, hexec, List.drop_eq_getElem_cons hi]
    simp only [Except.ok_bind, exec, hstep, Except.error_bind]

theorem exists_failsAt_iff {code : List Instr} :
    (∃ i instr, FailsAt code i instr) ↔ ∃ halt, exec code [] = .error halt := by
  constructor
  · rintro ⟨i, instr, hget, s, halt, hexec, hstep⟩
    exact ⟨halt, exec_eq_error_iff.mpr ⟨i, instr, s, hget, hexec, hstep⟩⟩
  · rintro ⟨halt, h⟩
    obtain ⟨i, instr, s, hget, hexec, hstep⟩ := exec_eq_error_iff.mp h
    exact ⟨i, instr, hget, s, halt, hexec, hstep⟩

/-- A run fails because the code does, or because the code does not leave one number. -/
theorem run_eq_error_iff {code : List Instr} {halt : Halt} :
    run code = .error halt ↔ exec code [] = .error halt ∨
      ∃ s, exec code [] = .ok s ∧ s.length ≠ 1 ∧ halt = ⟨.unbalanced s.length, s⟩ := by
  rw [run, Except.bind_eq_error_iff]
  refine or_congr_right (exists_congr fun s => and_congr_right fun _ => ?_)
  rcases s with _ | ⟨v, _ | ⟨w, s⟩⟩
  · simp [throw, throwThe, MonadExceptOf.throw, eq_comm]
  · simp [pure, Except.pure]
  · simp [throw, throwThe, MonadExceptOf.throw, eq_comm]

/-- What is reported as a misuse of the stack: a number was due and none was there, or not one number was left. -/
theorem value_eq_stackMisuse_iff {code : List Instr} {depth : Int} :
    (∃ reason, Calculation.value code = .error (.stackMisuse reason depth)) ↔
      ∃ halt, run code = .error halt ∧
        ((halt.fault = .emptyStack ∧ depth = 0) ∨ ∃ n : Nat, halt.fault = .unbalanced n ∧ depth = n) := by
  rw [value_eq]
  cases run code with
  | ok v => simp
  | error halt =>
    simp only [Except.mapError_error, Except.error.injEq, exists_eq_left']
    constructor
    · rintro ⟨reason, h⟩
      have hmisuse := Failure.misuse_of_ofMachine h
      cases hf : halt.fault with
      | emptyStack =>
        rw [hf] at h
        cases h
        exact .inl ⟨rfl, rfl⟩
      | unbalanced n =>
        rw [hf] at h
        cases h
        exact .inr ⟨n, rfl, rfl⟩
      | unknownName | inapplicable | arithmetic | foreignInstr =>
        rw [hf] at hmisuse
        exact hmisuse.elim
    · rintro (⟨hf, rfl⟩ | ⟨n, hf, rfl⟩)
      · rw [hf]
        exact ⟨_, rfl⟩
      · rw [hf]
        exact ⟨_, rfl⟩

/-- **The stack is found out of balance exactly when it is.** After any number of instructions, none of
which has failed, there are as many numbers on the stack as the balance of these instructions says. Running
code reports a misuse of the stack in two cases and no others. In the first one the first
instruction that fails is a change of sign on an empty stack, or a known operator on a stack of fewer than two
numbers, and the depth that is reported is zero. In the second one no instruction fails and the balance of the
code is not one, and the depth that is reported is the balance. -/
theorem stack_misuse_exact (code : List Instr) :
    (∀ i s, exec (code.take i) [] = .ok s → (s.length : Int) = balance (code.take i)) ∧
    ∀ depth : Int, (∃ reason, Calculation.value code = .error (.stackMisuse reason depth)) ↔
      (∃ i instr, FailsAt code i instr ∧ instr.Starves (balance (code.take i)) ∧ depth = 0) ∨
        ((¬ ∃ i instr, FailsAt code i instr) ∧ balance code ≠ 1 ∧ depth = balance code) := by
  have hheight : ∀ {c : List Instr} {s : Stack}, exec c [] = .ok s → (s.length : Int) = balance c := by
    intro c s h
    have := length_of_exec h
    rw [List.length_nil] at this
    omega
  refine ⟨fun i s => hheight, fun depth => ?_⟩
  rw [value_eq_stackMisuse_iff]
  constructor
  · rintro ⟨halt, hrun, hfault⟩
    obtain h | ⟨s, hexec, hlength, rfl⟩ := run_eq_error_iff.mp hrun
    · obtain ⟨i, instr, s, hget, hexec, hstep⟩ := exec_eq_error_iff.mp h
      obtain ⟨hstarves, hne⟩ := fault_of_step hstep
      obtain ⟨hempty, rfl⟩ | ⟨n, hn, -⟩ := hfault
      · refine .inl ⟨i, instr, ⟨hget, s, halt, hexec, hstep⟩, ?_, rfl⟩
        rw [← hheight hexec]
        exact hstarves.mp hempty
      · exact absurd hn (hne n)
    · obtain ⟨hempty, -⟩ | ⟨n, hn, rfl⟩ := hfault
      · cases hempty
      · cases hn
        refine .inr ⟨?_, ?_, hheight hexec⟩
        · rw [exists_failsAt_iff, hexec]
          simp
        · rw [← hheight hexec]
          omega
  · rintro (⟨i, instr, ⟨hget, s, halt, hexec, hstep⟩, hstarves, rfl⟩ | ⟨hnone, hbalance, rfl⟩)
    · refine ⟨halt, run_eq_error_iff.mpr (.inl (exec_eq_error_iff.mpr ⟨i, instr, s, hget, hexec, hstep⟩)), .inl ⟨?_, rfl⟩⟩
      rw [← hheight hexec] at hstarves
      exact (fault_of_step hstep).1.mpr hstarves
    · rw [exists_failsAt_iff] at hnone
      cases hexec : exec code [] with
      | error halt => exact absurd ⟨halt, hexec⟩ hnone
      | ok s =>
        have hlength := hheight hexec
        refine ⟨_, run_eq_error_iff.mpr (.inr ⟨s, hexec, by omega, rfl⟩), .inr ⟨s.length, rfl, hlength.symm⟩⟩

/-- An addition right behind a single number fails for want of a second one. With an operator that nobody
knows in its place, the stack is not looked at. -/
theorem stack_misuse_exact_missing_operand :
    (∃ reason, Calculation.value [.push 0 (.int 1), .negate 2, .apply 4 (.operator .add)] =
        .error (.stackMisuse reason 0)) ∧
      ¬ ∃ reason depth, Calculation.value [.push 0 (.int 1), .apply 4 (.text "^")] =
        .error (.stackMisuse reason depth) := by
  constructor
  · refine ((stack_misuse_exact _).2 0).mpr (.inl ⟨2, .apply 4 (.operator .add), ?_, ⟨⟨.add, rfl⟩, by decide⟩, rfl⟩)
    exact ⟨rfl, _, _, rfl, rfl⟩
  · rintro ⟨reason, depth, h⟩
    cases h

end Abacus
