import CoinScript.Proofs.Machine.Depth
import CoinScript.Proofs.Verification.Protocol

/-!
Conditionals across the scripts of a verification.

Each script of a verification starts without open conditionals, and none runs after one that has
left some open. So whatever a script turns over or closes it has opened itself.
-/

namespace CoinScript

def opcodesIn (p : Phase) (steps : List Step) : List Opcode :=
  (steps.filter (·.phase = p)).map Step.opcode

variable {p : Phase} {steps steps' : List Step}

lemma opcodesIn_append :
    opcodesIn p (steps ++ steps') = opcodesIn p steps ++ opcodesIn p steps' := by
  unfold opcodesIn
  rw [List.filter_append, List.map_append]

lemma opcodesIn_eq {q : Phase} (h : ∀ x ∈ steps, x.phase = q) :
    opcodesIn p steps = if q = p then steps.map Step.opcode else [] := by
  unfold opcodesIn
  split
  next hq =>
    rw [List.filter_eq_self.2 fun x hx => decide_eq_true ((h x hx).trans hq)]
  next hq =>
    rw [List.filter_eq_nil_iff.2 fun x hx hp => hq ((h x hx).symm.trans (of_decide_eq_true hp))]
    rfl

/-- A run that shows a script in its phase. -/
structure Run.Shows (r : Run) (q : Phase) : Prop where
  phase : ∀ x ∈ r.steps, x.phase = q
  matched : Matched (r.steps.map Step.opcode)
  closed : r.fault? = none → depth (r.steps.map Step.opcode) = 0

lemma shows_runScript {env : Env} (hkeeps : env.table.KeepsConditionals) (stack : Stack) :
    (runScript env stack).Shows env.phase :=
  ⟨runScript_phase env stack, (runScript_depth hkeeps).1, (runScript_depth hkeeps).2⟩

/-- **Phases are apart**: wherever a conditional is turned over or closed, one is open that was
opened in the same phase, and none that was opened in another. -/
def Apart (steps : List Step) : Prop :=
  ∀ earlier x later, steps = earlier ++ x :: later →
    (x.opcode.needsOpen = true → 0 < depth (opcodesIn x.phase earlier)) ∧
      ∀ p, p ≠ x.phase → depth (opcodesIn p earlier) = 0

/-- Every conditional that was opened, in whichever phase, is closed. -/
def AllClosed (steps : List Step) : Prop := ∀ p, depth (opcodesIn p steps) = 0

namespace Run.Shows

variable {r : Run} {q : Phase} (h : r.Shows q)
include h

lemma allClosed (hsteps : AllClosed steps) (hfault : r.fault? = none) :
    AllClosed (steps ++ r.steps) := by
  intro p
  rw [opcodesIn_append, depth_append, hsteps p, opcodesIn_eq h.phase]
  split
  · rw [h.closed hfault, Int.zero_add]
  · rfl

lemma apart (hsteps : AllClosed steps) (hapart : Apart steps) (hq : ∀ x ∈ steps, x.phase ≠ q) :
    Apart (steps ++ r.steps) := by
  -- the phase has not begun before these steps
  have hown : opcodesIn q steps = [] := by
    unfold opcodesIn
    rw [List.filter_eq_nil_iff.2 fun x hx hp => hq x hx (of_decide_eq_true hp)]
    rfl
  have hinside (front : List Step) (x : Step) (later : List Step)
      (hr : r.steps = front ++ x :: later) :
      (x.opcode.needsOpen = true → 0 < depth (opcodesIn x.phase (steps ++ front))) ∧
        ∀ p, p ≠ x.phase → depth (opcodesIn p (steps ++ front)) = 0 := by
    have hx : x.phase = q := h.phase x (by rw [hr]; simp)
    have hfront : ∀ y ∈ front, y.phase = q := fun y hy => h.phase y (by rw [hr]; simp [hy])
    rw [hx]
    constructor
    · intro hop
      rw [opcodesIn_append, hown, opcodesIn_eq hfront, if_pos rfl, List.nil_append]
      refine h.matched _ x.opcode (later.map Step.opcode) ?_ hop
      rw [hr, List.map_append, List.map_cons]
    · intro p hp
      rw [opcodesIn_append, opcodesIn_eq hfront, if_neg hp.symm, List.append_nil]
      exact hsteps p
  intro earlier x later hsplit
  -- the step lies among the new ones, or it comes before them
  rcases List.append_eq_append_iff.1 hsplit with ⟨front, rfl, hr⟩ | ⟨back, hback, hlater⟩
  · exact hinside front x later hr
  · cases back with
    | nil =>
      rw [List.append_nil] at hback
      rw [List.nil_append] at hlater
      subst hback
      have hnow := hinside [] x later hlater.symm
      rwa [List.append_nil] at hnow
    | cons y back =>
      rw [List.cons_append] at hlater
      obtain ⟨rfl, -⟩ := List.cons.inj hlater
      exact hapart earlier x back hback

end Run.Shows

lemma apart_nil : Apart [] := by
  intro earlier x later h
  simp at h

namespace Attempt

variable (a : Attempt)

lemma steps_cases : a.execution.steps = a.unlockingRun.steps ∨
    (a.unlockingRun.fault? = none ∧
      (a.execution.steps = a.unlockingRun.steps ++ a.lockingRun.steps ∨
        (a.lockingRun.fault? = none ∧ a.execution.steps =
          a.unlockingRun.steps ++ a.lockingRun.steps ++ a.redeemRun.steps))) := by
  rw [execution_steps, stages, lockingStages, redeemStages]
  cases h1 : a.unlockingRun.fault? with
  | some e => rw [Stage.started_run_fault h1]; simp
  | none =>
    rw [Stage.started_run h1]
    cases h2 : a.lockingRun.fault? with
    | some e => rw [Stage.started_run_fault h2]; simp
    | none =>
      rw [Stage.started_run h2]
      cases a.lockingRun.machine.stack.topIsTrue with
      | false => rw [Stage.started_demand_fault]; simp
      | true =>
        rw [Stage.started_demand]
        cases a.redeems with
        | false => simp
        | true =>
          rw [if_pos rfl]
          cases a.unlocking.isPushOnly with
          | false => rw [Stage.started_demand_fault]; simp
          | true =>
            rw [Stage.started_demand]
            cases !a.left.isEmpty with
            | false => rw [Stage.started_demand_fault]; simp
            | true =>
              rw [Stage.started_demand]
              cases h3 : a.redeemRun.fault? with
              | some e => rw [Stage.started_run_fault h3]; simp
              | none =>
                rw [Stage.started_run h3]
                cases a.redeemRun.machine.stack.topIsTrue with
                | false => rw [Stage.started_demand_fault]; simp
                | true => rw [Stage.started_demand]; simp

lemma apart_steps (hkeeps : a.table.KeepsConditionals) : Apart a.execution.steps := by
  have hphase {env : Env} (henv : env.table = a.table) (stack : Stack) :
      (runScript env stack).Shows env.phase := shows_runScript (henv ▸ hkeeps) stack
  have hu : a.unlockingRun.Shows .unlocking := hphase rfl []
  have hl : a.lockingRun.Shows .locking := hphase rfl a.left
  have hr : a.redeemRun.Shows .redeem := hphase rfl a.left.tail
  have hnone : AllClosed [] := fun _ => rfl
  have happart := hu.apart hnone apart_nil (by simp)
  rw [List.nil_append] at happart
  rcases a.steps_cases with hsteps | ⟨h1, hrest⟩
  · rwa [hsteps]
  · -- a phase that succeeds has closed all it opened, so the next one starts apart from it
    have hclosed := hu.allClosed hnone h1
    rw [List.nil_append] at hclosed
    have happart' := hl.apart hclosed happart fun x hx => by rw [hu.phase x hx]; decide
    rcases hrest with hsteps | ⟨h2, hsteps⟩
    · rwa [hsteps]
    · rw [hsteps]
      refine hr.apart (hl.allClosed hclosed h2) happart' fun x hx => ?_
      rcases List.mem_append.1 hx with hx | hx
      · rw [hu.phase x hx]
        decide
      · rw [hl.phase x hx]
        decide

end Attempt

/-- **The nesting of conditionals** does not depend on the data. However a run is driven and
wherever it stands, unless an instruction has failed, as many conditionals are open as the
instructions shown open and do not close, and those that turn over or close one have found one
open. So a run that ends without a fault has run nested instructions, and one finds a conditional
left open exactly if all of its instructions were shown and open more than they close. In a
verification, what a script turns over or closes was opened by that script, and nothing that
another has opened is open by then. What is said of the fault of an open conditional holds as long
as no function of the host refuses with that fault. -/
theorem conditionals_by_depth {t : OpcodeTable} (hkeeps : t.KeepsConditionals) :
    (∀ env s steps, env.table = t → Stepper.Reaches env s steps →
      Matched (steps.map Step.opcode) ∧
        (s.Intact → (s.machine.conditions.length : Int) = depth (steps.map Step.opcode)) ∧
        ∀ is, env.script.instructions = .ok is →
          steps.map Step.opcode = (is.take steps.length).map Instruction.opcode) ∧
    (∀ env stack, env.table = t →
      ((Stepper.start env stack).run.1.2 = none →
        ∃ is, env.script.instructions = .ok is ∧ Nested is) ∧
      (t.HostsOwnFaults false →
        ((Stepper.start env stack).run.1.2 = some .unterminatedConditional ↔
          ∃ is, env.script.instructions = .ok is ∧
            (Stepper.start env stack).run.1.1.length = is.length ∧
            0 < depth (is.map Instruction.opcode)))) ∧
    ∀ a : Attempt, a.table = t → Apart a.execution.steps := by
  refine ⟨?_, ?_, ?_⟩
  · rintro env s steps rfl h
    exact h.depth hkeeps
  · rintro env stack rfl
    rw [run_start_eq]
    exact ⟨nested_of_runScript hkeeps, runScript_unterminated_iff hkeeps⟩
  · rintro a rfl
    exact a.apart_steps hkeeps

/-- A script that opens a conditional in a branch that does not run, and closes only that one. -/
def halfOpen : Env where
  table := OpcodeTable.timeLocked
  setting := {}
  phase := .standalone
  script := ⟨[0x00, 0x63, 0x64, 0x67, 0x68]⟩

theorem conditionals_halfOpen : halfOpen.table.KeepsConditionals ∧
    (Stepper.start halfOpen []).run.1.2 = some .unterminatedConditional := by
  have hkeeps : halfOpen.table.KeepsConditionals := by decide +kernel
  have hhosts : halfOpen.table.HostsOwnFaults false :=
    OpcodeTable.registered_timeLocked.hostsOwnFaults
  refine ⟨hkeeps, (((conditionals_by_depth hkeeps).2.1 halfOpen [] rfl).2 hhosts).2 ?_⟩
  exact ⟨_, rfl, rfl, by decide⟩

end CoinScript
