import Mathlib.Tactic.Common
import CoinScript.Stepper

/-!
What a step and a run to the end do to a stepper.

A step either shows nothing and ends the run or takes one instruction, and a draw is a step that
reports a fault once. The steppers that a run can come to are those that steps, draws and runs
lead to from a start.
-/

namespace CoinScript

def StepOutcome.steps : StepOutcome → List Step
  | step x => [x]
  | finished => []
  | failed _ => []

def drawnSteps : Option (Except Fault Step) → List Step
  | some (.ok x) => [x]
  | some (.error _) => []
  | none => []

namespace Stepper

variable {env : Env} {s : Stepper} {steps : List Step} {i : Instruction} {is : List Instruction}
  {m : Machine}

/-- Whether a run has neither finished nor failed. -/
def isGoing (s : Stepper) : Bool :=
  match s.status with
  | .ready => true
  | .running => true
  | .succeeded => false
  | .failed _ => false

/-- The steppers that a run can come to, each with all the steps that it has shown. -/
inductive Reaches (env : Env) : Stepper → List Step → Prop
  | start (stack : Stack) : Reaches env (start env stack) []
  | step {s : Stepper} {steps : List Step} :
      Reaches env s steps → Reaches env s.step.2 (steps ++ s.step.1.steps)
  | next {s : Stepper} {steps : List Step} :
      Reaches env s steps → Reaches env s.next.2 (steps ++ drawnSteps s.next.1)
  | run {s : Stepper} {steps : List Step} :
      Reaches env s steps → Reaches env s.run.2 (steps ++ s.run.1.1)

/-! ### One step -/

lemma step_of_not_going (h : s.isGoing = false) : s.step.1.steps = [] ∧ s.step.2 = s := by
  unfold isGoing at h
  unfold step
  cases hstatus : s.status <;>
    simp only [hstatus, StepOutcome.steps, and_self, Bool.true_eq_false] at h ⊢

lemma step_of_going (h : s.isGoing = true) :
    s.step = ({ s with status := .ready } : Stepper).step := by
  unfold isGoing at h
  cases hstatus : s.status <;> simp only [hstatus, step, fail, Bool.false_eq_true] at h ⊢

lemma step_ok {log : String} (h : s.isGoing = true) (hp : s.pending = .ok (i :: is))
    (hi : s.machine.executeChecked s.env i = (.ok log, m)) :
    s.step = (.step (m.stepAfter s.env i log),
      { s with pending := .ok is, machine := m, status := .running }) := by
  rw [step_of_going h, step]
  simp only [hp, hi]

lemma step_error {e : Fault} (h : s.isGoing = true) (hp : s.pending = .ok (i :: is))
    (hi : s.machine.executeChecked s.env i = (.error e, m)) :
    s.step = (.failed e, { s with pending := .ok is, machine := m, status := .failed e }) := by
  rw [step_of_going h, step]
  simp only [hp, hi, fail]

lemma step_machine (h : s.isGoing = true) (hp : s.pending = .ok (i :: is)) :
    s.step.2.machine = (s.machine.executeChecked s.env i).2 := by
  cases hi : s.machine.executeChecked s.env i with
  | mk reply m =>
    cases reply with
    | ok log => rw [step_ok h hp hi]
    | error e => rw [step_error h hp hi]

lemma run_of_not_going (h : s.isGoing = false) : s.run.1.1 = [] ∧ s.run.2 = s := by
  unfold isGoing at h
  unfold run
  cases hstatus : s.status <;> simp only [hstatus, and_self, Bool.true_eq_false] at h ⊢

lemma run_of_going (h : s.isGoing = true) :
    s.run = ({ s with status := .ready } : Stepper).run := by
  unfold isGoing at h
  cases hstatus : s.status <;> simp only [hstatus, run, settle, Bool.false_eq_true] at h ⊢

/-- What a stepper and the stepper after it have in common: the instructions that are left were
left before. -/
structure Goes (s s' : Stepper) : Prop where
  env : s'.env = s.env
  pending : ∀ js, s'.pending = .ok js → ∃ is, s.pending = .ok is ∧ js ⊆ is

lemma Goes.of_eq {s' : Stepper} (henv : s'.env = s.env) (hpending : s'.pending = s.pending) :
    Goes s s' :=
  ⟨henv, fun js hjs => ⟨js, hpending.symm.trans hjs, List.Subset.refl js⟩⟩

/-- **A step** either shows nothing and ends the run, or takes one instruction. -/
lemma step_cases (s : Stepper) :
    (s.step.1.steps = [] ∧ s.step.2.isGoing = false ∧ Goes s s.step.2) ∨
      ∃ i is log m, s.pending = .ok (i :: is) ∧
        s.machine.executeChecked s.env i = (.ok log, m) ∧
        s.step = (.step (m.stepAfter s.env i log),
          { s with pending := .ok is, machine := m, status := .running }) := by
  cases hgoing : s.isGoing with
  | false =>
    obtain ⟨hsteps, hs⟩ := step_of_not_going hgoing
    rw [hs]
    exact .inl ⟨hsteps, hgoing, .of_eq rfl rfl⟩
  | true =>
    cases hp : s.pending with
    | error e =>
      rw [step_of_going hgoing, step]
      simp only [hp]
      exact .inl ⟨rfl, rfl, .of_eq rfl hp.symm⟩
    | ok is =>
      cases is with
      | nil =>
        rw [step_of_going hgoing, step]
        simp only [hp]
        cases hfinish : s.machine.finish? with
        | some e => exact .inl ⟨rfl, rfl, .of_eq rfl hp.symm⟩
        | none => exact .inl ⟨rfl, rfl, .of_eq rfl hp.symm⟩
      | cons i is =>
        cases hi : s.machine.executeChecked s.env i with
        | mk reply m =>
          cases reply with
          | ok log => exact .inr ⟨i, is, log, m, rfl, hi, step_ok hgoing hp hi⟩
          | error e =>
            -- the instruction that failed is gone from those that are left
            rw [step_error hgoing hp hi]
            refine .inl ⟨rfl, rfl, rfl, ?_⟩
            rintro js ⟨⟩
            exact ⟨_, hp, List.subset_cons_self i is⟩

lemma drawnSteps_next (s : Stepper) : drawnSteps s.next.1 = s.step.1.steps := by
  unfold next
  rcases s.step with ⟨outcome, s'⟩
  cases outcome with
  | step x => rfl
  | finished => rfl
  | failed e => cases hreported : s'.reported <;> simp [hreported, drawnSteps, StepOutcome.steps]

lemma next_eq_step (s : Stepper) :
    ∃ reported, s.next.2 = { s.step.2 with reported := reported } := by
  unfold next
  rcases s.step with ⟨outcome, s'⟩
  cases outcome with
  | step x => exact ⟨s'.reported, rfl⟩
  | finished => exact ⟨s'.reported, rfl⟩
  | failed e =>
    cases hreported : s'.reported with
    | true => exact ⟨true, by simp only [if_true, ← hreported]⟩
    | false => exact ⟨true, by simp only [hreported, Bool.false_eq_true, if_false]⟩

lemma run_cases (s : Stepper) : s.run.2.isGoing = false ∧ Goes s s.run.2 ∧
    (s.run.1.1 = [] ∨
      ∃ is, s.pending = .ok is ∧ s.run.1.1 = (Machine.run s.env is s.machine).steps) := by
  cases hgoing : s.isGoing with
  | false =>
    obtain ⟨hsteps, hs⟩ := run_of_not_going hgoing
    rw [hs]
    exact ⟨hgoing, .of_eq rfl rfl, .inl hsteps⟩
  | true =>
    rw [run_of_going hgoing, run]
    cases hp : s.pending with
    | error e => exact ⟨rfl, .of_eq rfl hp.symm, .inl rfl⟩
    | ok is =>
      refine ⟨?_, ⟨rfl, ?_⟩, .inr ⟨is, rfl, rfl⟩⟩
      · change isGoing (s.settle _) = false
        unfold settle isGoing
        cases (Machine.run s.env is s.machine).fault? <;> rfl
      · rintro js ⟨⟩
        exact ⟨is, hp, List.nil_subset is⟩

end Stepper

end CoinScript
