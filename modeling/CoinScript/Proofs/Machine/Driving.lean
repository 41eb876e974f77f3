import CoinScript.Proofs.Machine.Admission
import CoinScript.Proofs.Machine.Steps
import CoinScript.Proofs.Script.Tiling

/-!
Driving a run.

A run can be asked for one step, for the next item or for all that is left, in any order. Whatever
is asked, the steps shown so far and those still to come are the same trace, with the same fault at
its end and the same machine left behind. So a trace does not depend on how the run is driven, and
it goes along the instructions of the script, one step for each.
-/

namespace CoinScript

/-- What a run can be asked for. -/
inductive Request where
  | step
  | next
  | run

/-- What a run answers. -/
inductive Answer where
  | stepped (outcome : StepOutcome)
  | drawn (item? : Option (Except Fault Step))
  | ran (steps : List Step) (fault? : Option Fault)

/-- How a run stands after an attempt to run one instruction. -/
def StepOutcome.status : StepOutcome → Status
  | step _ => .running
  | finished => .succeeded
  | failed e => .failed e

namespace Answer

def steps : Answer → List Step
  | stepped outcome => outcome.steps
  | drawn item? => drawnSteps item?
  | ran steps _ => steps

def fault? : Answer → Option Fault
  | stepped (.step _) => none
  | stepped .finished => none
  | stepped (.failed e) => some e
  | drawn (some (.ok _)) => none
  | drawn (some (.error e)) => some e
  | drawn none => none
  | ran _ fault? => fault?

/-- Whether an answer reports the end of the run, well or with a fault. -/
def isLast : Answer → Bool
  | stepped (.step _) => false
  | drawn (some (.ok _)) => false
  | _ => true

def isDrawn : Answer → Bool
  | drawn _ => true
  | _ => false

def drawsFault : Answer → Bool
  | drawn (some (.error _)) => true
  | _ => false

def drawsLast (a : Answer) : Bool := a.isDrawn && a.isLast

end Answer

def Instruction.place (i : Instruction) : Opcode × Nat := (i.opcode, i.offset)

def Step.place (x : Step) : Opcode × Nat := (x.opcode, x.offset)

namespace Stepper

variable {env : Env} {s s' s'' : Stepper} {shown shown' : List Step}

def ask (s : Stepper) : Request → Answer × Stepper
  | .step => (.stepped s.step.1, s.step.2)
  | .next => (.drawn s.next.1, s.next.2)
  | .run => (.ran s.run.1.1 s.run.1.2, s.run.2)

def askAll : List Request → Stepper → List Answer × Stepper
  | [], s => ([], s)
  | r :: rs, s => ((s.ask r).1 :: (askAll rs (s.ask r).2).1, (askAll rs (s.ask r).2).2)

/-- Steps until the run has ended, `fuel` times at most. -/
def drain : (fuel : Nat) → Stepper → Option ((List Step × Option Fault) × Stepper)
  | 0, _ => none
  | fuel + 1, s =>
    match s.step with
    | (.step x, s) => (drain fuel s).map fun r => ((x :: r.1.1, r.1.2), r.2)
    | (.finished, s) => some (([], none), s)
    | (.failed e, s) => some (([], some e), s)

/-! ### The same run goes on -/

/-- After some steps have been shown, another stepper goes on with the same run. -/
structure Continues (s : Stepper) (shown : List Step) (s' : Stepper) : Prop where
  steps : s.run.1.1 = shown ++ s'.run.1.1
  fault : s.run.1.2 = s'.run.1.2
  machine : s.run.2.machine = s'.run.2.machine
  status : s.run.2.status = s'.run.2.status

lemma Continues.refl (s : Stepper) : s.Continues [] s := ⟨rfl, rfl, rfl, rfl⟩

lemma Continues.of_run {r : (List Step × Option Fault) × Stepper} (hrun : s.run = r)
    (h : r.1.1 = shown ++ s'.run.1.1 ∧ r.1.2 = s'.run.1.2 ∧ r.2.machine = s'.run.2.machine ∧
      r.2.status = s'.run.2.status) : s.Continues shown s' := by
  subst hrun
  exact ⟨h.1, h.2.1, h.2.2.1, h.2.2.2⟩

lemma Continues.trans (h : s.Continues shown s') (h' : s'.Continues shown' s'') :
    s.Continues (shown ++ shown') s'' where
  steps := by rw [h.steps, h'.steps, List.append_assoc]
  fault := h.fault.trans h'.fault
  machine := h.machine.trans h'.machine
  status := h.status.trans h'.status

lemma run_of_ended (h : s.isGoing = false) :
    s.run = (([], match s.status with | .failed e => some e | _ => none), s) := by
  unfold isGoing at h
  unfold run
  cases hstatus : s.status <;> simp only [hstatus, Bool.true_eq_false] at h ⊢

lemma Continues.fault_of_failed {e : Fault} (h : s.Continues shown s')
    (hfailed : s'.status = .failed e) : s.run.1.2 = some e := by
  have hend : s'.isGoing = false := by
    unfold isGoing
    rw [hfailed]
  rw [h.fault, run_of_ended hend, hfailed]

lemma Continues.of_ended (h : s.Continues shown s') (hend : s'.isGoing = false) :
    shown = s.run.1.1 ∧ s'.machine = s.run.2.machine ∧ s'.status = s.run.2.status := by
  rw [h.steps, h.machine, h.status, run_of_ended hend]
  exact ⟨(List.append_nil shown).symm, rfl, rfl⟩

lemma run_of_ok {is : List Instruction} (h : s.isGoing = true) (hp : s.pending = .ok is) :
    s.run = (((Machine.run s.env is s.machine).steps, (Machine.run s.env is s.machine).fault?),
      s.settle (Machine.run s.env is s.machine)) := by
  rw [run_of_going h, run]
  simp only [hp, settle]

lemma run_of_error {e : Fault} (h : s.isGoing = true) (hp : s.pending = .error e) :
    s.run = (([], some e), { s with status := .failed e }) := by
  rw [run_of_going h, run]
  simp only [hp]

lemma step_of_error {e : Fault} (h : s.isGoing = true) (hp : s.pending = .error e) :
    s.step = (.failed e, { s with status := .failed e }) := by
  rw [step_of_going h, step]
  simp only [hp, fail]

lemma step_of_finish {e : Fault} (h : s.isGoing = true) (hp : s.pending = .ok [])
    (hfinish : s.machine.finish? = some e) :
    s.step = (.failed e, { s with status := .failed e }) := by
  rw [step_of_going h, step]
  simp only [hp, hfinish, fail]

lemma step_of_finished (h : s.isGoing = true) (hp : s.pending = .ok [])
    (hfinish : s.machine.finish? = none) :
    s.step = (.finished, { s with status := .succeeded }) := by
  rw [step_of_going h, step]
  simp only [hp, hfinish]

lemma continues_step (s : Stepper) : s.Continues s.step.1.steps s.step.2 := by
  cases hgoing : s.isGoing with
  | false =>
    obtain ⟨hsteps, hs⟩ := step_of_not_going hgoing
    rw [hsteps, hs]
    exact .refl s
  | true =>
    cases hp : s.pending with
    | error e =>
      rw [step_of_error hgoing hp]
      exact .of_run (run_of_error hgoing hp) ⟨rfl, rfl, rfl, rfl⟩
    | ok is =>
      have hrun := run_of_ok hgoing hp
      cases is with
      | nil =>
        rw [Machine.run_nil] at hrun
        cases hfinish : s.machine.finish? with
        | some e =>
          rw [hfinish] at hrun
          rw [step_of_finish hgoing hp hfinish]
          exact .of_run hrun ⟨rfl, rfl, rfl, rfl⟩
        | none =>
          rw [hfinish] at hrun
          rw [step_of_finished hgoing hp hfinish]
          exact .of_run hrun ⟨rfl, rfl, rfl, rfl⟩
      | cons i is =>
        cases hi : s.machine.executeChecked s.env i with
        | mk reply m =>
          cases reply with
          | error e =>
            rw [Machine.run_cons_error hi] at hrun
            rw [step_error hgoing hp hi]
            exact .of_run hrun ⟨rfl, rfl, rfl, rfl⟩
          | ok log =>
            rw [Machine.run_cons_ok hi] at hrun
            rw [step_ok hgoing hp hi]
            exact .of_run hrun ⟨rfl, rfl, rfl, rfl⟩

lemma run_reported (s : Stepper) (reported : Bool) :
    ({ s with reported := reported } : Stepper).run =
      (s.run.1, { s.run.2 with reported := reported }) := by
  rcases s with ⟨env, pending, machine, status, _⟩
  cases status <;> cases pending <;> rfl

lemma Continues.reported (h : s.Continues shown s') (reported : Bool) :
    s.Continues shown { s' with reported := reported } := by
  refine .of_run rfl ?_
  rw [run_reported s' reported]
  exact ⟨h.steps, h.fault, h.machine, h.status⟩

lemma status_run (s : Stepper) :
    s.run.2.status = match s.run.1.2 with | some e => .failed e | none => .succeeded := by
  rcases s with ⟨env, pending, machine, status, reported⟩
  cases status <;> cases pending <;> rfl

lemma continues_run (s : Stepper) : s.Continues s.run.1.1 s.run.2 := by
  have hrun := run_of_ended s.run_cases.1
  refine .of_run rfl ?_
  rw [hrun, status_run]
  refine ⟨(List.append_nil _).symm, ?_, rfl, rfl⟩
  cases s.run.1.2 <;> rfl

/-! ### Answers -/

/-- What an answer says of the run that gives it, and of the run as it stands afterwards. -/
structure Answers (s : Stepper) (a : Answer) (s' : Stepper) : Prop where
  continues : s.Continues a.steps s'
  last : a.isLast = true → s'.isGoing = false
  fault : ∀ e, a.fault? = some e → s'.status = .failed e
  ended : s.isGoing = false → s'.machine = s.machine ∧ s'.status = s.status

lemma status_step (s : Stepper) :
    s.step.2.status = s.step.1.status ∧ s.step.2.reported = s.reported := by
  unfold step
  cases hstatus : s.status with
  | succeeded => exact ⟨hstatus, rfl⟩
  | failed e => exact ⟨hstatus, rfl⟩
  | ready | running =>
    simp only
    split
    · exact ⟨rfl, rfl⟩
    · split <;> exact ⟨rfl, rfl⟩
    · split <;> exact ⟨rfl, rfl⟩

lemma Answers.of_none {a : Answer} (hcontinues : s.Continues a.steps s')
    (hlast : a.isLast = true → s'.isGoing = false)
    (hended : s.isGoing = false → s'.machine = s.machine ∧ s'.status = s.status)
    (hnone : a.fault? = none) : s.Answers a s' :=
  ⟨hcontinues, hlast, fun e h => (Option.some_ne_none e (h.symm.trans hnone)).elim, hended⟩

lemma answers_step (s : Stepper) : s.Answers (.stepped s.step.1) s.step.2 where
  continues := continues_step s
  last h := by
    unfold isGoing
    rw [s.status_step.1]
    cases hout : s.step.1 with
    | step x => rw [hout] at h; cases h
    | finished => rfl
    | failed e => rfl
  fault e h := by
    rw [s.status_step.1]
    cases hout : s.step.1 with
    | step x => rw [hout] at h; cases h
    | finished => rw [hout] at h; cases h
    | failed e' => rw [hout] at h; cases h; rfl
  ended h := by
    rw [(step_of_not_going h).2]
    exact ⟨rfl, rfl⟩

lemma next_of_step {x : Step} (h : s.step.1 = .step x) : s.next = (some (.ok x), s.step.2) := by
  unfold next
  rcases hstep : s.step with ⟨outcome, s'⟩
  rw [hstep] at h
  cases h
  rfl

lemma next_of_finished (h : s.step.1 = .finished) : s.next = (none, s.step.2) := by
  unfold next
  rcases hstep : s.step with ⟨outcome, s'⟩
  rw [hstep] at h
  cases h
  rfl

lemma next_of_failed {e : Fault} (h : s.step.1 = .failed e) : s.next =
    if s.reported then (none, s.step.2)
    else (some (.error e), { s.step.2 with reported := true }) := by
  have hreported := s.status_step.2
  unfold next
  rcases hstep : s.step with ⟨outcome, s'⟩
  rw [hstep] at h hreported
  cases h
  change s'.reported = s.reported at hreported
  simp only [hreported]

lemma answers_next (s : Stepper) : s.Answers (.drawn s.next.1) s.next.2 := by
  have hstep := s.answers_step
  cases hout : s.step.1 with
  | step x =>
    rw [hout] at hstep
    rw [next_of_step hout]
    exact .of_none hstep.continues nofun hstep.ended rfl
  | finished =>
    rw [hout] at hstep
    rw [next_of_finished hout]
    exact .of_none hstep.continues (fun _ => hstep.last rfl) hstep.ended rfl
  | failed e =>
    rw [hout] at hstep
    rw [next_of_failed hout]
    -- a fault that has been reported is not drawn again
    cases s.reported with
    | true => exact .of_none hstep.continues (fun _ => hstep.last rfl) hstep.ended rfl
    | false =>
      refine ⟨hstep.continues.reported true, fun _ => hstep.last rfl, ?_, hstep.ended⟩
      rintro _ ⟨⟩
      exact hstep.fault e rfl

lemma answers_run (s : Stepper) : s.Answers (.ran s.run.1.1 s.run.1.2) s.run.2 where
  continues := continues_run s
  last _ := s.run_cases.1
  fault e h := by
    change s.run.1.2 = some e at h
    rw [status_run, h]
  ended h := by
    rw [run_of_ended h]
    exact ⟨rfl, rfl⟩

lemma answers_ask (s : Stepper) (r : Request) : s.Answers (s.ask r).1 (s.ask r).2 := by
  cases r with
  | step => exact answers_step s
  | next => exact answers_next s
  | run => exact answers_run s

/-! ### Several answers -/

lemma askAll_of_ended (h : s.isGoing = false) (rs : List Request) :
    (s.askAll rs).2.isGoing = false := by
  induction rs generalizing s with
  | nil => exact h
  | cons r rs ih =>
    refine ih ?_
    have hstatus := ((answers_ask s r).ended h).2
    unfold isGoing at h ⊢
    rw [hstatus]
    exact h

lemma continues_askAll (s : Stepper) (rs : List Request) :
    s.Continues ((s.askAll rs).1.flatMap Answer.steps) (s.askAll rs).2 := by
  induction rs generalizing s with
  | nil => exact .refl s
  | cons r rs ih => exact (answers_ask s r).continues.trans (ih _)

lemma ended_of_isLast {a : Answer} {rs : List Request} (h : a ∈ (s.askAll rs).1)
    (hlast : a.isLast = true) : (s.askAll rs).2.isGoing = false := by
  induction rs generalizing s with
  | nil => cases h
  | cons r rs ih =>
    rcases List.mem_cons.1 h with rfl | h
    · exact askAll_of_ended ((answers_ask s r).last hlast) rs
    · exact ih h

lemma fault_of_mem {a : Answer} {e : Fault} {rs : List Request} (h : a ∈ (s.askAll rs).1)
    (hfault : a.fault? = some e) : s.run.1.2 = some e := by
  induction rs generalizing s with
  | nil => cases h
  | cons r rs ih =>
    have hr := answers_ask s r
    rcases List.mem_cons.1 h with rfl | h
    · exact hr.continues.fault_of_failed (hr.fault e hfault)
    · rw [hr.continues.fault]
      exact ih h

lemma fault_of_isLast {a : Answer} {rs : List Request} (h : a ∈ (s.askAll rs).1)
    (hlast : a.isLast = true) (hdrawn : a.isDrawn = false) : a.fault? = s.run.1.2 := by
  induction rs generalizing s with
  | nil => cases h
  | cons r rs ih =>
    have hr := answers_ask s r
    rcases List.mem_cons.1 h with rfl | h
    · cases r with
      | next => cases hdrawn
      | run => rfl
      | step =>
        -- a step is last only if it ends the run, which then has no other fault to come
        have hend : s.step.2.isGoing = false := hr.last hlast
        have hfault : s.run.1.2 = s.step.2.run.1.2 := hr.continues.fault
        rw [hfault, run_of_ended hend, s.status_step.1]
        change (Answer.stepped s.step.1).fault? = _
        cases hout : s.step.1 with
        | step x =>
          rw [ask, hout] at hlast
          cases hlast
        | finished => rfl
        | failed e => rfl
    · rw [hr.continues.fault]
      exact ih h

lemma askAll_append (s : Stepper) (rs rs' : List Request) : s.askAll (rs ++ rs') =
    ((s.askAll rs).1 ++ ((s.askAll rs).2.askAll rs').1, ((s.askAll rs).2.askAll rs').2) := by
  induction rs generalizing s with
  | nil => rfl
  | cons r rs ih => rw [List.cons_append, askAll, ih]; rfl

/-! ### Draws -/

lemma reported_run (s : Stepper) : s.run.2.reported = s.reported := by
  rcases s with ⟨env, pending, machine, status, reported⟩
  cases status <;> cases pending <;> rfl

lemma drawsFault_ask (s : Stepper) (r : Request) :
    (s.ask r).1.drawsFault = (s.run.1.2.isSome && !s.reported && (s.ask r).1.drawsLast) ∧
      (s.ask r).2.reported = (s.reported || (s.ask r).1.drawsFault) := by
  obtain ⟨hstatus, hreported⟩ := s.status_step
  cases r with
  | step => exact ⟨(Bool.and_false _).symm, hreported.trans (Bool.or_false _).symm⟩
  | run => exact ⟨(Bool.and_false _).symm, (reported_run s).trans (Bool.or_false _).symm⟩
  | next =>
    unfold ask
    cases hout : s.step.1 with
    | step x =>
      rw [next_of_step hout]
      exact ⟨(Bool.and_false _).symm, hreported.trans (Bool.or_false _).symm⟩
    | finished =>
      rw [hout] at hstatus
      have hend : s.step.2.isGoing = false := by
        unfold isGoing
        rw [hstatus]
        rfl
      have hnone : s.run.1.2 = none := by
        rw [(continues_step s).fault, run_of_ended hend, hstatus]
        rfl
      rw [next_of_finished hout, hnone]
      exact ⟨rfl, hreported.trans (Bool.or_false _).symm⟩
    | failed e =>
      rw [hout] at hstatus
      rw [next_of_failed hout, (continues_step s).fault_of_failed hstatus]
      cases hold : s.reported with
      | true => exact ⟨rfl, hreported.trans hold⟩
      | false => exact ⟨rfl, rfl⟩

lemma countP_drawsFault (s : Stepper) (rs : List Request) :
    (s.askAll rs).1.countP Answer.drawsFault =
      if s.run.1.2.isSome && !s.reported && (s.askAll rs).1.any Answer.drawsLast then 1 else 0 := by
  induction rs generalizing s with
  | nil => simp [askAll]
  | cons r rs ih =>
    obtain ⟨hfault, hreported⟩ := drawsFault_ask s r
    -- whether the others report it depends on whether this one has
    rw [askAll, List.countP_cons, List.any_cons, ih, hreported, hfault,
      ← (answers_ask s r).continues.fault]
    cases s.run.1.2.isSome <;> cases s.reported <;> cases (s.ask r).1.drawsLast <;>
      cases (askAll rs (s.ask r).2).1.any Answer.drawsLast <;> rfl

end Stepper

/-! ### Along the script -/

namespace Machine

variable {env : Env} {i : Instruction} {is : List Instruction} {m m' : Machine}

/-- **A run shows its instructions**, one step for each, up to where it ends. The instructions
shown lead to a machine, which is the last one if all are shown. -/
lemma run_shown (env : Env) (is : List Instruction) (m : Machine) :
    (run env is m).steps.map Step.place =
        (is.take (run env is m).steps.length).map Instruction.place ∧
      (∃ m', m.afterAll env (is.take (run env is m).steps.length) = .ok m' ∧
        ((run env is m).fault? = none → m' = (run env is m).machine)) ∧
      ((run env is m).fault? = none → (run env is m).steps.length = is.length) := by
  induction is generalizing m with
  | nil => exact ⟨rfl, ⟨m, rfl, fun _ => rfl⟩, fun _ => rfl⟩
  | cons i is ih =>
    cases hi : m.executeChecked env i with
    | mk reply m' =>
      cases reply with
      | error e =>
        rw [run_cons_error hi]
        exact ⟨rfl, ⟨m, rfl, nofun⟩, nofun⟩
      | ok log =>
        obtain ⟨hplaces, ⟨m'', hafter, hlast⟩, hlength⟩ := ih m'
        rw [run_cons_ok hi]
        refine ⟨congrArg (_ :: ·) hplaces, ⟨m'', ?_, hlast⟩, fun h => ?_⟩
        · rw [List.length_cons, List.take_succ_cons, afterAll_cons, after_eq_ok.2 ⟨log, hi⟩]
          exact hafter
        · rw [List.length_cons, List.length_cons, hlength h]

end Machine

namespace Stepper

variable {env : Env} {s s' : Stepper} {steps : List Step} {is : List Instruction}

lemma drain_succ (fuel : Nat) (s : Stepper) : s.drain (fuel + 1) =
    match s.step with
    | (.step x, s) => (drain fuel s).map fun r => ((x :: r.1.1, r.1.2), r.2)
    | (.finished, s) => some (([], none), s)
    | (.failed e, s) => some (([], some e), s) := rfl

lemma drain_of_ended (h : s.step.1.steps = []) (hend : s.step.2.isGoing = false) (fuel : Nat) :
    ∃ s', s.drain (fuel + 1) = some (s.run.1, s') ∧ s'.machine = s.run.2.machine ∧
      s'.status = s.run.2.status := by
  have hcontinues := s.continues_step
  have hstatus := s.status_step.1
  rw [h] at hcontinues
  obtain ⟨hsteps, hmachine, hstatus'⟩ := hcontinues.of_ended hend
  have hfault := hcontinues.fault
  rw [run_of_ended hend, hstatus] at hfault
  refine ⟨s.step.2, ?_, hmachine, hstatus'⟩
  rw [drain_succ]
  rcases hstep : s.step with ⟨outcome, s'⟩
  rw [hstep] at h hfault
  cases outcome with
  | step x => cases h
  | finished => exact congrArg (fun r => some (r, s')) (Prod.ext hsteps hfault.symm)
  | failed e => exact congrArg (fun r => some (r, s')) (Prod.ext hsteps hfault.symm)

lemma drain_eq (hp : s.pending = .ok is) :
    ∃ s', s.drain (is.length + 1) = some (s.run.1, s') ∧ s'.machine = s.run.2.machine ∧
      s'.status = s.run.2.status := by
  induction is generalizing s with
  | nil =>
    rcases s.step_cases with ⟨hsteps, hend, -⟩ | ⟨i, is, log, m, hp', -, -⟩
    · exact drain_of_ended hsteps hend 0
    · rw [hp] at hp'
      cases hp'
  | cons j js ih =>
    rcases s.step_cases with ⟨hsteps, hend, -⟩ | ⟨i, is, log, m, hp', hi, hstep⟩
    · exact drain_of_ended hsteps hend (j :: js).length
    · rw [hp] at hp'
      cases hp'
      -- what the rest comes to is what the whole run comes to, but for the step shown
      have hcontinues := s.continues_step
      rw [hstep] at hcontinues
      obtain ⟨s', hdrain, hmachine, hstatus⟩ := ih (s := { s with
        pending := .ok js, machine := m, status := .running }) rfl
      refine ⟨s', ?_, hmachine.trans hcontinues.machine.symm,
        hstatus.trans hcontinues.status.symm⟩
      rw [drain_succ, hstep]
      simp only [List.length_cons, hdrain, Option.map_some]
      exact congrArg (fun r => some (r, s')) (Prod.ext hcontinues.steps.symm hcontinues.fault.symm)

/-! ### From the start -/

variable {stack : Stack}

lemma run_start (his : env.script.instructions = .ok is) : (start env stack).run.1 =
    ((Machine.run env is { stack := stack }).steps,
      (Machine.run env is { stack := stack }).fault?) := by
  rw [run_of_ok rfl his]
  rfl

lemma run_start_of_error {e : Fault} (h : env.script.instructions = .error e) :
    (start env stack).run.1 = ([], some e) := by
  rw [run_of_error rfl h]

/-- **Traces do not depend on how a run is driven.** Run to the end, a script is shown instruction
by instruction, all of it if there is no fault, in one attempt more than it has instructions; if it
does not parse, nothing is shown but the fault. Whatever a run is asked, the steps that are shown
are the first of that trace, and all of it as soon as an answer reports the end. From then on the
stacks and the status stay as that run leaves them. A fault that is reported is that run's, and an
answer to anything but a draw does report it; the draws among all answers report it once, when the
first of them comes to the end. -/
theorem askAll_start (env : Env) (stack : Stack) (requests : List Request) :
    let whole := (start env stack).run
    let answers := ((start env stack).askAll requests).1
    (∀ is, env.script.instructions = .ok is →
      whole.1.1.map Step.place <+: is.map Instruction.place ∧
      (whole.1.2 = none → whole.1.1.length = is.length) ∧
      ∃ s, (start env stack).drain (is.length + 1) = some (whole.1, s) ∧
        s.machine = whole.2.machine ∧ s.status = whole.2.status) ∧
    (∀ e, env.script.instructions = .error e →
      whole.1 = ([], some e) ∧ ∃ cause, e = .parse cause) ∧
    answers.flatMap Answer.steps <+: whole.1.1 ∧
    ((∃ a ∈ answers, a.isLast = true) → answers.flatMap Answer.steps = whole.1.1 ∧
      ∀ more, ((start env stack).askAll (requests ++ more)).2.machine = whole.2.machine ∧
        ((start env stack).askAll (requests ++ more)).2.status = whole.2.status) ∧
    (∀ a ∈ answers, (∀ e, a.fault? = some e → whole.1.2 = some e) ∧
      (a.isLast = true → a.isDrawn = false → a.fault? = whole.1.2)) ∧
    answers.countP Answer.drawsFault =
      if whole.1.2.isSome && answers.any Answer.drawsLast then 1 else 0 := by
  have hcontinues := continues_askAll (start env stack)
  refine ⟨fun is his => ?_, fun e he => ⟨run_start_of_error he, ?_⟩, ?_, ?_, ?_, ?_⟩
  · obtain ⟨hplaces, -, hlength⟩ := Machine.run_shown env is { stack := stack }
    rw [run_start his]
    refine ⟨?_, hlength, ?_⟩
    · rw [hplaces]
      exact (List.take_prefix _ is).map _
    · rw [← run_start his]
      exact drain_eq his
  · exact Script.instructionsFrom_eq_error he
  · exact ⟨_, (hcontinues requests).steps.symm⟩
  · rintro ⟨a, ha, hlast⟩
    have hend := ended_of_isLast ha hlast
    refine ⟨((hcontinues requests).of_ended hend).1, fun more => ?_⟩
    refine ((hcontinues (requests ++ more)).of_ended ?_).2
    rw [askAll_append]
    exact askAll_of_ended hend more
  · exact fun a ha => ⟨fun e => fault_of_mem ha, fault_of_isLast ha⟩
  · have hcount := countP_drawsFault (start env stack) requests
    have hfresh : (start env stack).reported = false := rfl
    rwa [hfresh, Bool.not_false, Bool.and_true] at hcount

end Stepper

end CoinScript
