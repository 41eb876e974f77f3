import CoinScript.Profile
import CoinScript.Proofs.Machine.Run
import CoinScript.Proofs.Machine.Steps
import CoinScript.Proofs.Script.Proper

/-!
Disabled opcodes, in everything that can be seen of a run.

A disabled opcode fails before it has an effect, in skipped branches too, but for the pushes with
data, which take place before the table of opcodes is looked at. So the disabled opcodes that a
trace can show are pushes with data.
-/

namespace CoinScript

namespace Machine

variable {env : Env} {i : Instruction} {is : List Instruction} {m m' : Machine} {data : Bytes}
  {log : String}

/-! ### Instructions -/

lemma executeChecked_of_error {e : Fault} (h : m.execute env i = (.error e, m')) :
    m.executeChecked env i = (.error e, m') := by
  unfold executeChecked
  rw [h]

lemma executeChecked_disabled (hdata : i.data? = none)
    (hdisabled : env.table.isDisabled i.opcode = true) :
    ∃ e m', m.executeChecked env i = (.error e, m') ∧ m'.stack = m.stack ∧
      m'.altstack = m.altstack := by
  have hrun (m : Machine) : m.runOpcode env i.opcode i.offset =
      (.error (.disabledOpcode (env.table.name i.opcode)), m) := by
    unfold runOpcode
    rw [if_pos hdisabled]
  by_cases hop : Opcode.op16 < i.opcode
  · by_cases hops : maxOps < m.opCount + 1
    · refine ⟨.opCountExceeded maxOps, m, executeChecked_of_error ?_, rfl, rfl⟩
      simp only [execute, hdata, countOps, if_pos hop, if_pos hops]
    · refine ⟨.disabledOpcode (env.table.name i.opcode), { m with opCount := m.opCount + 1 },
        executeChecked_of_error ?_, rfl, rfl⟩
      simp only [execute, hdata, countOps, if_pos hop, if_neg hops, hrun]
  · refine ⟨.disabledOpcode (env.table.name i.opcode), m, executeChecked_of_error ?_, rfl, rfl⟩
    simp only [execute, hdata, if_neg hop, hrun]

lemma executeChecked_push_long (hdata : i.data? = some data)
    (hlen : maxItemSize < data.length) :
    m.executeChecked env i = (.error (.pushSize data.length maxItemSize), m) := by
  refine executeChecked_of_error ?_
  simp only [execute, hdata, push, if_pos hlen]

lemma executeChecked_push_stack (hdata : i.data? = some data)
    (hlen : data.length ≤ maxItemSize) (hexec : m.executing = true) :
    (m.executeChecked env i).2.stack = data :: m.stack := by
  unfold executeChecked
  simp only [execute, hdata, push, if_neg (Nat.not_lt.2 hlen), hexec, if_true]
  split <;> rfl

lemma executeChecked_push_skipped (hdata : i.data? = some data)
    (hlen : data.length ≤ maxItemSize) (hexec : m.executing = false)
    (hsize : m.size ≤ maxStackSize) :
    m.executeChecked env i = (.ok s!"{data.length} bytes (not executed)", m) := by
  rw [executeChecked_eq_ok]
  refine ⟨?_, hsize⟩
  simp only [execute, hdata, push, if_neg (Nat.not_lt.2 hlen), hexec, Bool.false_eq_true, if_false]

lemma le_push4_of_disabled (h : m.executeChecked env i = (.ok log, m')) (hi : i.IsProper)
    (hdisabled : env.table.isDisabled i.opcode = true) : i.opcode ≤ Opcode.push4 := by
  cases hdata : i.data? with
  | some data => exact hi.isSome_iff.1 (Option.isSome_of_eq_some hdata)
  | none =>
    obtain ⟨e, m₁, herror, -⟩ := executeChecked_disabled (m := m) hdata hdisabled
    rw [herror] at h
    cases h

lemma le_push4_of_run (his : ∀ i ∈ is, i.IsProper) :
    ∀ x ∈ (run env is m).steps, env.table.isDisabled x.opcode = true →
      x.opcode ≤ Opcode.push4 := by
  induction is generalizing m with
  | nil => simp [run_nil]
  | cons i is ih =>
    obtain ⟨hi, his⟩ := List.forall_mem_cons.1 his
    cases h : m.executeChecked env i with
    | mk reply m' =>
      cases reply with
      | error e => simp [run_cons_error h]
      | ok log =>
        rw [run_cons_ok h, List.forall_mem_cons]
        exact ⟨le_push4_of_disabled h hi, ih his⟩

end Machine

namespace Stepper

variable {env : Env} {s : Stepper} {steps : List Step}

/-! ### What holds all along -/

/-- What is known of every stepper that a run comes to, and of the steps it has shown. A machine
that skips instructions has run one before, so it is not too large. -/
structure Sound (e : Env) (s : Stepper) (steps : List Step) : Prop where
  env : s.env = e
  proper : ∀ is, s.pending = .ok is → ∀ i ∈ is, i.IsProper
  small : s.isGoing = true → s.machine.executing = true ∨ s.machine.size ≤ maxStackSize
  shown : ∀ x ∈ steps, e.table.isDisabled x.opcode = true → x.opcode ≤ Opcode.push4

lemma sound_start (env : Env) (stack : Stack) : Sound env (start env stack) [] where
  env := rfl
  proper _ his := (Script.instructions_eq_ok_iff.1 his).2.2
  small _ := .inl rfl
  shown _ hx := absurd hx List.not_mem_nil

lemma Sound.end {s' : Stepper} {more : List Step} (h : Sound env s steps) (hgoes : Goes s s')
    (hend : s'.isGoing = false) (hmore : ∀ x ∈ more, env.table.isDisabled x.opcode = true →
      x.opcode ≤ Opcode.push4) : Sound env s' (steps ++ more) where
  env := hgoes.env.trans h.env
  proper js hjs := by
    obtain ⟨is, his, hsub⟩ := hgoes.pending js hjs
    exact fun i hi => h.proper is his i (hsub hi)
  small hgoing := by
    rw [hend] at hgoing
    cases hgoing
  shown := List.forall_mem_append.2 ⟨h.shown, hmore⟩

lemma Sound.step (h : Sound env s steps) : Sound env s.step.2 (steps ++ s.step.1.steps) := by
  rcases s.step_cases with ⟨hsteps, hend, hgoes⟩ | ⟨i, is, log, m, hp, hi, hstep⟩
  · rw [hsteps]
    exact h.end hgoes hend fun x hx => absurd hx List.not_mem_nil
  · have hproper := List.forall_mem_cons.1 (h.proper _ hp)
    rw [hstep]
    rw [h.env] at hi
    refine ⟨h.env, ?_, fun _ => .inr (Machine.executeChecked_eq_ok.1 hi).2, ?_⟩
    · rintro js ⟨⟩
      exact hproper.2
    · refine List.forall_mem_append.2 ⟨h.shown, List.forall_mem_singleton.2 ?_⟩
      exact Machine.le_push4_of_disabled hi hproper.1

lemma Sound.next (h : Sound env s steps) :
    Sound env s.next.2 (steps ++ drawnSteps s.next.1) := by
  obtain ⟨reported, hnext⟩ := s.next_eq_step
  rw [drawnSteps_next, hnext]
  exact ⟨h.step.env, h.step.proper, h.step.small, h.step.shown⟩

lemma Sound.run (h : Sound env s steps) : Sound env s.run.2 (steps ++ s.run.1.1) := by
  obtain ⟨hend, hgoes, hsteps⟩ := s.run_cases
  refine h.end hgoes hend ?_
  rcases hsteps with hsteps | ⟨is, hp, hsteps⟩
  · rw [hsteps]
    exact fun x hx => absurd hx List.not_mem_nil
  · rw [hsteps, h.env]
    exact Machine.le_push4_of_run (h.proper is hp)

lemma Reaches.sound (h : Reaches env s steps) : Sound env s steps := by
  induction h with
  | start stack => exact sound_start env stack
  | step _ ih => exact ih.step
  | next _ ih => exact ih.next
  | run _ ih => exact ih.run

/-- **Disabled opcodes, wherever a run has come to.** The steps it has shown so far contain no
disabled opcode but pushes with data. If the next instruction has a disabled opcode, the step
fails and leaves both stacks as they are, unless the instruction is a push with data that is not
too large. -/
theorem disabled_fails (h : Reaches env s steps) :
    (∀ x ∈ steps, env.table.isDisabled x.opcode = true → x.opcode ≤ Opcode.push4) ∧
    ∀ i is, s.isGoing = true → s.pending = .ok (i :: is) →
      env.table.isDisabled i.opcode = true →
      (((∃ e, s.step.1 = .failed e) ∧ s.step.2.machine.stack = s.machine.stack ∧
          s.step.2.machine.altstack = s.machine.altstack) ↔
        ∀ data, i.data? = some data → maxItemSize < data.length) := by
  have hsound := h.sound
  refine ⟨hsound.shown, fun i is hgoing hp hdisabled => ?_⟩
  rw [← hsound.env] at hdisabled
  constructor
  · rintro ⟨⟨e, hfail⟩, hstack, -⟩ data hdata
    by_contra hlen
    rw [Nat.not_lt] at hlen
    cases hexec : s.machine.executing with
    | true =>
      -- the data is on the stack, whether the step succeeds or not
      have hpushed : (s.machine.executeChecked s.env i).2.stack = data :: s.machine.stack :=
        Machine.executeChecked_push_stack hdata hlen hexec
      rw [step_machine hgoing hp, hpushed] at hstack
      exact List.cons_ne_self data _ hstack
    | false =>
      -- a push that is skipped succeeds, since the stacks are not too large
      have hsize := (hsound.small hgoing).resolve_left (by rw [hexec]; exact Bool.false_ne_true)
      have hskip : s.machine.executeChecked s.env i =
          (.ok s!"{data.length} bytes (not executed)", s.machine) :=
        Machine.executeChecked_push_skipped hdata hlen hexec hsize
      rw [step_ok hgoing hp hskip] at hfail
      cases hfail
  · intro hlarge
    cases hdata : i.data? with
    | none =>
      obtain ⟨e, m, hi, hstack, haltstack⟩ :=
        Machine.executeChecked_disabled (m := s.machine) hdata hdisabled
      rw [step_error hgoing hp hi]
      exact ⟨⟨e, rfl⟩, hstack, haltstack⟩
    | some data =>
      rw [step_error hgoing hp (Machine.executeChecked_push_long hdata (hlarge data hdata))]
      exact ⟨⟨_, rfl⟩, rfl, rfl⟩

/-- A disabled opcode in a skipped branch. -/
theorem disabled_fails_skipped :
    let env : Env := ⟨OpcodeTable.timeLocked, {}, .standalone, ⟨[0x00, 0x63, 0x7e, 0x68]⟩⟩
    let s := (start env []).step.2.step.2
    s.machine.executing = false ∧ (∃ e, s.step.1 = .failed e) ∧
      s.step.2.machine.stack = s.machine.stack ∧
      s.step.2.machine.altstack = s.machine.altstack := by
  intro env s
  have hreaches : Reaches env s _ := .step (.step (.start []))
  refine ⟨rfl, ((disabled_fails hreaches).2 ⟨0x7e, none, 2⟩ [⟨0x68, none, 3⟩] rfl rfl ?_).2 ?_⟩
  · decide
  · rintro data ⟨⟩

/-- A network can disable the push of no bytes, and the push still takes place. -/
theorem disabled_push_runs :
    let t := OpcodeTable.timeLocked.setDisabled [0x00]
    let s := start ⟨t, {}, .standalone, ⟨[0x00]⟩⟩ []
    ({ disabled? := some ["OP_0"] } : ProfileConfig).opcodes = .ok t ∧ t.isDisabled 0x00 = true ∧
      s.step.1.steps.map Step.opcode = [0x00] ∧ s.step.2.machine.stack = [[]] :=
  ⟨rfl, rfl, rfl, rfl⟩

end Stepper

end CoinScript
