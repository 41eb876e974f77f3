import Mathlib.Tactic.Common
import CoinScript.Machine

/-!
Runs, by induction on the instructions that are left.

Every snapshot of a run bears the phase of the run, and the last one shows the stack on which
a run without a fault ends. A run that takes the same steps in another setting, as far as it
takes any, ends there as it does here.
-/

namespace CoinScript

/-- A snapshot but for its log line. -/
def Step.quiet (s : Step) : Step := { s with log := "" }

/-- Two runs that differ in their log lines only. -/
structure Run.Alike (a b : Run) : Prop where
  fault : a.fault? = b.fault?
  machine : a.machine = b.machine
  steps : a.steps.map Step.quiet = b.steps.map Step.quiet

/-- Whatever instruction succeeds in `env` succeeds in `env'` too and leaves the same machine
behind. The log lines may differ. -/
def Env.Follows (env' env : Env) : Prop :=
  ∀ (m : Machine) (i : Instruction) (log : String) (m' : Machine),
    m.executeChecked env i = (.ok log, m') → ∃ log', m.executeChecked env' i = (.ok log', m')

namespace Machine

variable {env env' : Env} {i : Instruction} {is : List Instruction} {m m' : Machine}

/-! ### Instructions that succeed -/

lemma onStack_eq {e : Effect} {reply : Except Fault String} {s : Stack}
    (h : e m.stack = (reply, s)) : m.onStack e = (reply, { m with stack := s }) := by
  rw [onStack, h]

lemma onStack_eq_ok {e : Effect} {log : String} : m.onStack e = (.ok log, m') ↔
    ∃ left, e m.stack = (.ok log, left) ∧ m' = { m with stack := left } := by
  unfold onStack
  rcases e m.stack with ⟨reply, left⟩
  simp [eq_comm]

lemma countOps_eq_ok {n : Nat} : m.countOps n = .ok m' ↔
    m.opCount + n ≤ maxOps ∧ m' = { m with opCount := m.opCount + n } := by
  unfold countOps
  by_cases h : maxOps < m.opCount + n
  · simp [h, Nat.not_le.2 h]
  · simp [h, Nat.not_lt.1 h, eq_comm]

/-- An opcode is skipped in a branch that does not run, unless it is a conditional. -/
def skips (m : Machine) (op : Opcode) : Bool := !m.executing && !op.isConditional

/-- What an opcode that runs does: what the network's handler or its own effect does. -/
def runs (m : Machine) (env : Env) (op : Opcode) (offset : Nat) (log : String) (m' : Machine) :
    Prop :=
  (∃ handler, env.table.handler? op = some handler ∧
    m.runHandler env op handler = (.ok log, m')) ∨
  (env.table.handler? op = none ∧ ∃ b, Builtin.ofOpcode? op = some b ∧
    m.runBuiltin env (env.table.name op) offset b = (.ok log, m'))

lemma runHandler_named_eq_ok {op : Opcode} {h : NamedHandler} {log : String} :
    m.runHandler env op h = (.ok log, m') ↔
      h.run env.setting (env.table.name op) m.stack = .ok log ∧ m' = m := by
  rw [runHandler, Prod.mk.injEq, eq_comm (a := m')]

lemma runOpcode_eq_ok {op : Opcode} {offset : Nat} {log : String} :
    m.runOpcode env op offset = (.ok log, m') ↔
      env.table.isDisabled op = false ∧ op ≠ Opcode.verIf ∧ op ≠ Opcode.verNotIf ∧
        ((m.skips op = true ∧ log = s!"{env.table.name op} (not executed)" ∧ m' = m) ∨
          (m.skips op = false ∧ m.runs env op offset log m')) := by
  unfold runOpcode runs skips
  cases env.table.isDisabled op with
  | true => simp
  | false =>
    -- the two opcodes that are refused even where they are skipped
    by_cases hver : op = Opcode.verIf ∨ op = Opcode.verNotIf
    · have : ¬ (op ≠ Opcode.verIf ∧ op ≠ Opcode.verNotIf) := by tauto
      simp [hver]
      tauto
    · obtain ⟨h1, h2⟩ := not_or.1 hver
      rw [if_neg Bool.false_ne_true, if_neg hver]
      cases !m.executing && !op.isConditional with
      | true => simp [h1, h2, eq_comm]
      | false =>
        cases env.table.handler? op with
        | some handler => simp [h1, h2]
        | none =>
          cases Builtin.ofOpcode? op with
          | some b => simp [h1, h2]
          | none => simp

lemma execute_eq_ok {log : String} : m.execute env i = (.ok log, m') ↔
    (∃ data, i.data? = some data ∧ m.push data = (.ok log, m')) ∨
    (i.data? = none ∧ ∃ counted,
      (if Opcode.op16 < i.opcode then m.countOps 1 else .ok m) = .ok counted ∧
      counted.runOpcode env i.opcode i.offset = (.ok log, m')) := by
  unfold execute
  cases i.data? with
  | some data => simp
  | none =>
    by_cases hop : Opcode.op16 < i.opcode
    · cases m.countOps 1 with
      | error e => simp [hop]
      | ok counted => simp [hop]
    · simp [hop]

lemma executeChecked_eq_ok {log : String} : m.executeChecked env i = (.ok log, m') ↔
    m.execute env i = (.ok log, m') ∧ m'.size ≤ maxStackSize := by
  unfold executeChecked
  rcases m.execute env i with ⟨reply, m₁⟩
  cases reply with
  | error e => simp
  | ok log₁ =>
    by_cases hsize : maxStackSize < m₁.size
    · simp only [hsize, if_true]
      constructor
      · intro h
        cases h
      · rintro ⟨h, hle⟩
        cases h
        omega
    · simp only [hsize, if_false]
      constructor
      · intro h
        cases h
        exact ⟨rfl, by omega⟩
      · exact fun h => h.1

/-! ### Runs -/

lemma run_nil : run env [] m = ⟨[], m.finish?, m⟩ := rfl

lemma run_cons_ok {log : String} (h : m.executeChecked env i = (.ok log, m')) :
    run env (i :: is) m =
      { run env is m' with steps := m'.stepAfter env i log :: (run env is m').steps } := by
  rw [run, h]

lemma run_cons_error {e : Fault} (h : m.executeChecked env i = (.error e, m')) :
    run env (i :: is) m = ⟨[], some e, m'⟩ := by
  rw [run, h]

/-! ### What is seen of a run -/

theorem run_phase (env : Env) (is : List Instruction) (m : Machine) :
    ∀ s ∈ (run env is m).steps, s.phase = env.phase := by
  induction is generalizing m with
  | nil => simp [run_nil]
  | cons i is ih =>
    cases h : m.executeChecked env i with
    | mk reply m' =>
      cases reply with
      | error e => simp [run_cons_error h]
      | ok log =>
        rw [run_cons_ok h]
        intro s hs
        rcases List.mem_cons.1 hs with rfl | hs
        · rfl
        · exact ih m' s hs

/-- **The last snapshot shows the stack** that a run without a fault ends on. Without a
snapshot the run ends on the stack it started from. -/
theorem run_stack (h : (run env is m).fault? = none) :
    ((run env is m).steps.getLast?.map Step.stack).getD m.stack = (run env is m).machine.stack := by
  induction is generalizing m with
  | nil => simp [run_nil]
  | cons i is ih =>
    cases hi : m.executeChecked env i with
    | mk reply m' =>
      cases reply with
      | error e =>
        rw [run_cons_error hi] at h
        cases h
      | ok log =>
        rw [run_cons_ok hi] at h ⊢
        rw [← ih h, List.getLast?_cons]
        cases (run env is m').steps.getLast? with
        | none => rfl
        | some s => rfl

/-! ### Runs in two settings -/

theorem run_alike (h : env'.Follows env) (hphase : env'.phase = env.phase)
    (ok : (run env is m).fault? = none) : (run env' is m).Alike (run env is m) := by
  induction is generalizing m with
  | nil => exact ⟨rfl, rfl, rfl⟩
  | cons i is ih =>
    cases hi : m.executeChecked env i with
    | mk reply m' =>
      cases reply with
      | error e =>
        rw [run_cons_error hi] at ok
        cases ok
      | ok log =>
        obtain ⟨log', hi'⟩ := h m i log m' hi
        rw [run_cons_ok hi] at ok ⊢
        rw [run_cons_ok hi']
        obtain ⟨fault, machine, steps⟩ := ih ok
        refine ⟨fault, machine, ?_⟩
        rw [List.map_cons, List.map_cons, steps]
        simp [Step.quiet, stepAfter, hphase]

end Machine

end CoinScript
