import CoinScript.Proofs.Machine.Run
import CoinScript.Schema.Standard
import CoinScript.Verification

/-!
Verification as a protocol of stages.

A stage runs a script or demands something of what the runs have left. The stages are taken in
order up to the first that fails: its fault is the fault of the verification, and the steps are
those of the runs that were started. Although whether a verification passed is read off its
last step, it is so exactly if no stage fails, also where a script has no instructions and so
no step of its own.
-/

namespace CoinScript

/-! ### Runs of scripts -/

variable {env : Env} {stack : Stack}

lemma runScript_error {e : Fault} (h : env.script.instructions = .error e) :
    runScript env stack = ⟨[], some e, { stack := stack }⟩ := by
  unfold runScript
  rw [h]

lemma runScript_ok {is : List Instruction} (h : env.script.instructions = .ok is) :
    runScript env stack = Machine.run env is { stack := stack } := by
  unfold runScript
  rw [h]

lemma runScript_phase (env : Env) (stack : Stack) :
    ∀ s ∈ (runScript env stack).steps, s.phase = env.phase := by
  cases hi : env.script.instructions with
  | error e => simp [runScript_error hi]
  | ok is =>
    rw [runScript_ok hi]
    exact Machine.run_phase env is _

lemma runScript_stack (h : (runScript env stack).fault? = none) :
    ((runScript env stack).steps.getLast?.map Step.stack).getD stack =
      (runScript env stack).machine.stack := by
  cases hi : env.script.instructions with
  | error e =>
    rw [runScript_error hi] at h
    cases h
  | ok is =>
    rw [runScript_ok hi] at h ⊢
    exact Machine.run_stack h

def endsTrue (steps : List Step) : Bool :=
  (steps.getLast?.map Step.stack).any Stack.topIsTrue

lemma endsTrue_append {steps : List Step} (hr : (runScript env stack).fault? = none)
    (htop : (runScript env stack).machine.stack.topIsTrue = true)
    (h : stack.topIsTrue = true → endsTrue steps = true) :
    endsTrue (steps ++ (runScript env stack).steps) = true := by
  have hs := runScript_stack hr
  unfold endsTrue at h ⊢
  rw [List.getLast?_append]
  cases hl : (runScript env stack).steps.getLast? with
  | some s =>
    rw [hl] at hs
    simp only [Option.map_some, Option.getD_some] at hs
    simpa [hs] using htop
  | none =>
    -- no step was taken, so the run ends where it started
    rw [hl] at hs
    rw [← hs] at htop
    rw [Option.none_or]
    exact h htop

/-! ### Stages -/

/-- A stage of a verification. -/
inductive Stage where
  | run (r : Run)
  | demand (met : Bool) (fault : Fault)

namespace Stage

def fault? : Stage → Option Fault
  | run r => r.fault?
  | demand met fault => if met then none else some fault

@[simp] lemma fault?_run (r : Run) : (run r).fault? = r.fault? := rfl

@[simp] lemma fault?_demand {met : Bool} {e : Fault} :
    (demand met e).fault? = none ↔ met = true := by
  cases met <;> simp [fault?]

/-- The stages up to the first that fails, that one included. -/
def reached : List Stage → List Stage
  | [] => []
  | s :: rest => s :: if s.fault?.isSome then [] else reached rest

def run? : Stage → Option Run
  | run r => some r
  | demand _ _ => none

def started (stages : List Stage) : List Run := (reached stages).filterMap run?

variable {r : Run} {e : Fault} {rest : List Stage}

@[simp] lemma started_nil : started [] = [] := rfl

lemma started_run (h : r.fault? = none) : started (run r :: rest) = r :: started rest := by
  simp [started, reached, fault?, run?, h]

lemma started_run_fault (h : r.fault? = some e) : started (run r :: rest) = [r] := by
  simp [started, reached, fault?, run?, h]

lemma started_demand : started (demand true e :: rest) = started rest := by
  simp [started, reached, fault?, List.filterMap_cons, run?]

lemma started_demand_fault : started (demand false e :: rest) = [] := by
  simp [started, reached, fault?, run?]

end Stage

/-- An execution that goes on with some stages. -/
def Execution.after (x : Execution) (stages : List Stage) : Execution :=
  { x with
    steps := x.steps ++ (Stage.started stages).flatMap (·.steps)
    fault? := stages.findSome? Stage.fault? }

namespace Execution

variable {x : Execution} {r : Run} {e : Fault} {rest : List Stage}

lemma after_nil (h : x.fault? = none) : x.after [] = x := by
  rcases x with ⟨steps, fault?, verified⟩
  cases h
  simp [after]

lemma after_run (h : r.fault? = none) :
    x.after (.run r :: rest) = (x.add r.steps).after rest := by
  simp [after, add, Stage.started_run h, Stage.fault?, h]

lemma after_run_fault (h : r.fault? = some e) :
    x.after (.run r :: rest) = (x.add r.steps).fail e := by
  simp [after, add, fail, Stage.started_run_fault h, Stage.fault?, h]

lemma after_demand : x.after (.demand true e :: rest) = x.after rest := by
  simp [after, Stage.started_demand, Stage.fault?]

lemma after_demand_fault : x.after (.demand false e :: rest) = x.fail e := by
  simp [after, fail, Stage.started_demand_fault, Stage.fault?]

end Execution

/-! ### The stages of a verification -/

/-- An unlocking script held against a locking script. -/
structure Attempt where
  table : OpcodeTable
  unlocking : Script
  locking : Script
  spend : Spend

namespace Attempt

variable (a : Attempt)

/-- The unlocking script runs from the empty stack. -/
def unlockingRun : Run :=
  runScript ⟨a.table, a.spend.setting, .unlocking, a.unlocking⟩ []

/-- What the unlocking script leaves. -/
def left : Stack := a.unlockingRun.machine.stack

/-- The locking script runs from what the unlocking script leaves. -/
def lockingRun : Run :=
  runScript ⟨a.table, a.spend.setting, .locking, a.locking⟩ a.left

/-- The item on top of what the unlocking script leaves runs from the rest. -/
def redeemRun : Run :=
  runScript ⟨a.table, a.spend.setting, .redeem, ⟨a.left.headD []⟩⟩ a.left.tail

/-- Whether a redeem script is asked for. -/
def redeems : Bool :=
  a.spend.flags.has Flags.payToScriptHash && a.locking.isPayToScriptHash

def redeemStages : List Stage :=
  [.demand a.unlocking.isPushOnly (.verifyFailed .notPushOnly),
    .demand (!a.left.isEmpty) (.verifyFailed .noRedeemScript),
    .run a.redeemRun,
    .demand a.redeemRun.machine.stack.topIsTrue (.verifyFailed .redeemScript)]

def lockingStages : List Stage :=
  .run a.lockingRun ::
    .demand a.lockingRun.machine.stack.topIsTrue (.verifyFailed .lockingScript) ::
    if a.redeems then a.redeemStages else []

def stages : List Stage := .run a.unlockingRun :: a.lockingStages

/-- Whether the unlocking and the locking script do well. -/
def verifies : Bool :=
  a.unlockingRun.fault?.isNone && a.lockingRun.fault?.isNone &&
    a.lockingRun.machine.stack.topIsTrue

def execution : Execution := verifyScripts a.table a.unlocking a.locking a.spend

variable {a} {x : Execution}

/-! ### Each part of the verification takes its stages -/

lemma verifyRedeem_eq (hx : x.fault? = none) :
    verifyRedeem a.table a.unlocking a.spend a.left x = x.after a.redeemStages := by
  unfold verifyRedeem redeemStages redeemRun
  cases a.unlocking.isPushOnly with
  | false => exact Execution.after_demand_fault.symm
  | true =>
    rw [Execution.after_demand]
    cases a.left with
    | nil => exact Execution.after_demand_fault.symm
    | cons redeem below =>
      rw [List.isEmpty_cons, Bool.not_false, Execution.after_demand, List.headD_cons,
        List.tail_cons]
      simp only [Bool.not_true, Bool.false_eq_true, if_false]
      -- what the script does is not looked into, only how it ends
      generalize runScript _ below = r
      cases hr : r.fault? with
      | some e => rw [Execution.after_run_fault hr]
      | none =>
        rw [Execution.after_run hr]
        cases r.machine.stack.topIsTrue with
        | false => exact Execution.after_demand_fault.symm
        | true =>
          rw [Execution.after_demand, Execution.after_nil (by exact hx)]
          rfl

lemma verifyLocking_eq (hx : x.fault? = none) (hv : x.verified = false) :
    verifyLocking a.table a.unlocking a.locking a.spend a.left x =
      { x.after a.lockingStages with
        verified := a.lockingRun.fault?.isNone && a.lockingRun.machine.stack.topIsTrue } := by
  unfold verifyLocking lockingStages lockingRun
  generalize runScript _ a.left = r
  rcases x with ⟨steps, fault?, verified⟩
  subst hx hv
  cases hr : r.fault? with
  | some e =>
    simp only [hr]
    rw [Execution.after_run_fault hr]
    rfl
  | none =>
    rw [Execution.after_run hr]
    cases htop : r.machine.stack.topIsTrue with
    | false =>
      simp only [hr, htop, Bool.not_false, if_true]
      rw [Execution.after_demand_fault]
      rfl
    | true =>
      simp only [hr, htop, Bool.not_true, Bool.false_eq_true, if_false]
      rw [Execution.after_demand]
      unfold redeems
      cases a.spend.flags.has Flags.payToScriptHash && a.locking.isPayToScriptHash with
      | false =>
        simp only [Bool.false_eq_true, if_false]
        rw [Execution.after_nil rfl]
        rfl
      | true =>
        simp only [if_true]
        rw [verifyRedeem_eq rfl]
        rfl

/-- **A verification takes its stages**, up to the first that fails. -/
lemma execution_eq :
    a.execution = { ({} : Execution).after a.stages with verified := a.verifies } := by
  unfold execution verifyScripts stages verifies
  cases hr : a.unlockingRun.fault? with
  | some e =>
    have hrun : (runScript ⟨a.table, a.spend.setting, .unlocking, a.unlocking⟩ []).fault? =
      some e := hr
    simp only [hrun]
    rw [Execution.after_run_fault hr]
    rfl
  | none =>
    have hrun : (runScript ⟨a.table, a.spend.setting, .unlocking, a.unlocking⟩ []).fault? =
      none := hr
    simp only [hrun]
    rw [Execution.after_run hr]
    exact verifyLocking_eq rfl rfl

/-! ### What the last step shows -/

lemma execution_fault? : a.execution.fault? = a.stages.findSome? Stage.fault? := by
  rw [execution_eq]
  rfl

lemma execution_steps : a.execution.steps = (Stage.started a.stages).flatMap (·.steps) := by
  rw [execution_eq]
  exact List.nil_append _

lemma execution_verified : a.execution.verified = a.verifies := by
  rw [execution_eq]

lemma verifies_iff : a.verifies = true ↔ a.unlockingRun.fault? = none ∧
    a.lockingRun.fault? = none ∧ a.lockingRun.machine.stack.topIsTrue = true := by
  simp [verifies, Option.isNone_iff_eq_none, and_assoc]

lemma fault?_eq_none_iff : a.execution.fault? = none ↔ a.verifies = true ∧
    (a.redeems = true → a.unlocking.isPushOnly = true ∧ a.left ≠ [] ∧
      a.redeemRun.fault? = none ∧ a.redeemRun.machine.stack.topIsTrue = true) := by
  rw [execution_fault?, List.findSome?_eq_none_iff, verifies_iff]
  unfold stages lockingStages
  cases a.redeems with
  | false => simp
  | true => simp [redeemStages, and_assoc]

lemma started_stages (h : a.execution.fault? = none) :
    Stage.started a.stages =
      a.unlockingRun :: a.lockingRun :: if a.redeems then [a.redeemRun] else [] := by
  obtain ⟨hv, hredeem⟩ := fault?_eq_none_iff.1 h
  obtain ⟨h1, h2, htop⟩ := verifies_iff.1 hv
  unfold stages lockingStages
  rw [Stage.started_run h1, Stage.started_run h2, htop, Stage.started_demand]
  cases hr : a.redeems with
  | false => rfl
  | true =>
    obtain ⟨hpush, hleft, h3, htop3⟩ := hredeem hr
    have hne : (!a.left.isEmpty) = true := by simpa using hleft
    rw [if_pos rfl, if_pos rfl, redeemStages, hpush, hne, htop3, Stage.started_demand,
      Stage.started_demand, Stage.started_run h3, Stage.started_demand, Stage.started_nil]

lemma steps_eq (h : a.execution.fault? = none) :
    a.execution.steps = a.unlockingRun.steps ++ a.lockingRun.steps ++
      if a.redeems then a.redeemRun.steps else [] := by
  rw [execution_steps, started_stages h]
  cases a.redeems <;> simp

/-- **The last step tells the truth**: without a fault it leaves a true item on top, even if the
last script that ran took no step. -/
lemma endsTrue_steps (h : a.execution.fault? = none) : endsTrue a.execution.steps = true := by
  obtain ⟨hv, hredeem⟩ := fault?_eq_none_iff.1 h
  obtain ⟨h1, h2, htop⟩ := verifies_iff.1 hv
  have first (ht : a.left.topIsTrue = true) : endsTrue a.unlockingRun.steps = true := by
    rw [← List.nil_append a.unlockingRun.steps]
    exact endsTrue_append h1 ht (by simp [Stack.topIsTrue])
  have second : endsTrue (a.unlockingRun.steps ++ a.lockingRun.steps) = true :=
    endsTrue_append h2 htop first
  rw [steps_eq h]
  cases hr : a.redeems with
  | false => rwa [if_neg Bool.false_ne_true, List.append_nil]
  | true =>
    obtain ⟨-, -, h3, htop3⟩ := hredeem hr
    exact endsTrue_append h3 htop3 fun _ => second

lemma passed_iff : a.execution.passed = true ↔ a.execution.fault? = none := by
  constructor
  · intro h
    simp only [Execution.passed, Bool.and_eq_true, Option.isNone_iff_eq_none] at h
    exact h.1
  · intro h
    have := endsTrue_steps h
    unfold Execution.passed
    rw [h]
    exact this

lemma valid_iff : a.execution.valid = true ↔ a.execution.fault? = none := by
  unfold Execution.valid
  rw [Bool.and_eq_true, passed_iff, execution_verified]
  exact ⟨fun h => h.1, fun h => ⟨h, (fault?_eq_none_iff.1 h).1⟩⟩

lemma last_started (h : a.execution.fault? = none) :
    (Stage.started a.stages).getLast?.any (·.machine.stack.topIsTrue) = true := by
  obtain ⟨hv, hredeem⟩ := fault?_eq_none_iff.1 h
  rw [started_stages h]
  cases hr : a.redeems with
  | false => simpa using (verifies_iff.1 hv).2.2
  | true =>
    obtain ⟨-, -, -, htop⟩ := hredeem hr
    simpa using htop

/-- **Verification is the protocol of its stages.** Its steps are those of the runs that are
started, each with its phase, and its fault is that of the first stage that fails. It verifies
if the unlocking and the locking script do well, and is valid exactly if no stage fails; so
what the last step shows agrees with the stack on which the last run ended. -/
theorem execution_protocol (a : Attempt) :
    a.execution.steps = (Stage.started a.stages).flatMap (·.steps) ∧
    ((∀ s ∈ a.unlockingRun.steps, s.phase = .unlocking) ∧
      (∀ s ∈ a.lockingRun.steps, s.phase = .locking) ∧
      ∀ s ∈ a.redeemRun.steps, s.phase = .redeem) ∧
    a.execution.fault? = a.stages.findSome? Stage.fault? ∧
    (a.execution.verified = true ↔ a.unlockingRun.fault? = none ∧ a.lockingRun.fault? = none ∧
      a.lockingRun.machine.stack.topIsTrue = true) ∧
    (a.execution.valid = true ↔ a.execution.fault? = none) ∧
    a.execution.passed = (a.execution.fault?.isNone &&
      (Stage.started a.stages).getLast?.any (·.machine.stack.topIsTrue)) := by
  refine ⟨execution_steps, ?_, execution_fault?, ?_, valid_iff, ?_⟩
  · exact ⟨runScript_phase _ _, runScript_phase _ _, runScript_phase _ _⟩
  · rw [execution_verified, verifies_iff]
  · cases h : a.execution.fault? with
    | none => rw [passed_iff.2 h, last_started h, Option.isNone_none, Bool.true_and]
    | some e => simp [Execution.passed, h]

/-- A redeem script without instructions takes no step: the last step is one of the locking
script. -/
example :
    (verifyScripts OpcodeTable.timeLocked ⟨[0x51, 0x00]⟩ ⟨[0xa9, 0x14] ++ hash160 [] ++ [0x87]⟩
      { tx := .new Standard.bitcoin, input := 0 }).valid = true := by
  decide +kernel

end Attempt

end CoinScript
