import CoinScript.Proofs.Machine.Driving
import CoinScript.Proofs.Machine.Faults
import CoinScript.Proofs.Machine.Structured
import CoinScript.Proofs.Script.Proper

/-!
How deep conditionals are nested.

The machine keeps one truth value for each open conditional, also for those that are opened in a
branch that does not run. So how many are open can be read off the instructions that were shown:
it is the number of those that open a conditional less the number of those that close one,
whatever the data. An instruction that turns over or closes a conditional is only shown where one
is open, and none is left open from one script of a verification to the next.
-/

namespace CoinScript

namespace Opcode

def opens (op : Opcode) : Bool := op == opIf || op == notIf

def closes (op : Opcode) : Bool := op == endIf

/-- Whether an opcode has no meaning outside of a conditional. -/
def needsOpen (op : Opcode) : Bool := op == opElse || op == endIf

end Opcode

/-- The number of opcodes that open a conditional less the number of those that close one. -/
def depth (ops : List Opcode) : Int := ops.countP Opcode.opens - ops.countP Opcode.closes

/-- Before every opcode that has no meaning outside of a conditional, more conditionals are opened
than closed. -/
def Matched (ops : List Opcode) : Prop :=
  ∀ before op after, ops = before ++ op :: after → op.needsOpen = true → 0 < depth before

variable {ops ops' : List Opcode} {op : Opcode}

lemma depth_append : depth (ops ++ ops') = depth ops + depth ops' := by
  unfold depth
  rw [List.countP_append, List.countP_append]
  omega

lemma depth_cons : depth (op :: ops) = depth [op] + depth ops := by
  rw [← depth_append, List.singleton_append]

lemma matched_nil : Matched [] := by
  intro before op after h
  simp at h

/-! ### One instruction -/

namespace Mark

/-- What an instruction adds to the number of open conditionals. -/
def change : Mark → Int
  | opens _ => 1
  | alternates => 0
  | closes => -1
  | plain => 0

def needsOpen : Mark → Bool
  | opens _ => false
  | alternates => true
  | closes => true
  | plain => false

end Mark

variable {env : Env} {i : Instruction} {is : List Instruction} {m m' : Machine} {stack : Stack}

lemma depth_of_plain (h1 : op ≠ Opcode.opIf) (h2 : op ≠ Opcode.notIf) (h3 : op ≠ Opcode.opElse)
    (h4 : op ≠ Opcode.endIf) : depth [op] = 0 ∧ op.needsOpen = false := by
  simp [depth, Opcode.opens, Opcode.closes, Opcode.needsOpen, h1, h2, h3, h4]

lemma Instruction.IsProper.mark_eq (hi : i.IsProper) :
    i.mark.change = depth [i.opcode] ∧ i.mark.needsOpen = i.opcode.needsOpen := by
  rcases i with ⟨op, data?, offset⟩
  cases data? with
  | some data =>
    -- an opcode with data is a push, and none of the pushes makes a conditional
    have hpush : op ≤ Opcode.push4 := hi.isSome_iff.1 rfl
    have hne {op' : Opcode} (h : ¬ op' ≤ Opcode.push4) : op ≠ op' := fun ho => h (ho ▸ hpush)
    obtain ⟨hdepth, hopen⟩ := depth_of_plain (hne (by decide)) (hne (by decide))
      (hne (by decide)) (hne (by decide))
    exact ⟨hdepth.symm, hopen.symm⟩
  | none =>
    by_cases h1 : op = Opcode.opIf
    · subst h1
      exact ⟨rfl, rfl⟩
    by_cases h2 : op = Opcode.notIf
    · subst h2
      exact ⟨rfl, rfl⟩
    by_cases h3 : op = Opcode.opElse
    · subst h3
      exact ⟨rfl, rfl⟩
    by_cases h4 : op = Opcode.endIf
    · subst h4
      exact ⟨rfl, rfl⟩
    obtain ⟨hdepth, hopen⟩ := depth_of_plain h1 h2 h3 h4
    have hmark : (mk op none offset).mark = .plain := by simp [mark, h1, h2, h3, h4]
    rw [hmark]
    exact ⟨hdepth.symm, hopen.symm⟩

namespace Machine

lemma perform_conditions (hi : i.mark = .plain) (hd : i.data? = none) :
    (m.perform env i.opcode i.offset).2.conditions = m.conditions := by
  have hwithin : m.perform env i.opcode i.offset = ((m.perform env i.opcode i.offset).1,
      (m.perform env i.opcode i.offset).2.within m.conditions) := perform_within hi hd
  exact congrArg (fun o : Outcome => o.2.conditions) hwithin

lemma effect_conditions (hi : i.mark = .plain) (h : m.effect env i = .ok m') :
    m'.conditions = m.conditions := by
  unfold effect at h
  cases hd : i.data? with
  | some data =>
    simp only [hd] at h
    cases h
    split <;> rfl
  | none =>
    simp only [hd] at h
    split at h
    · cases h
      rfl
    · obtain ⟨log, h⟩ := quiet_eq_ok.1 h
      exact (congrArg (fun o : Outcome => o.2.conditions) h).symm.trans (perform_conditions hi hd)

lemma after_conditions_plain (hi : i.mark = .plain) (h : m.after env i = .ok m') :
    m'.conditions = m.conditions := by
  rw [after_eq] at h
  obtain ⟨n, -, h⟩ := Except.bind_eq_ok.1 h
  obtain ⟨m₁, heffect, h⟩ := Except.bind_eq_ok.1 h
  rw [(limited_eq_ok.1 h).2]
  exact effect_conditions (m := { m with opCount := n }) hi heffect

lemma builtin_of_after (hkeeps : env.table.KeepsConditionals) {b : Builtin}
    (hb : i.mark.builtin? = some b) (h : m.after env i = .ok m') :
    ∃ (m₁ : Machine) (name log : String), m₁.conditions = m.conditions ∧
      m₁.runBuiltin env name i.offset b = (.ok log, m') := by
  change (m.store.machine m.conditions).after env i = .ok m' at h
  rw [after_conditional hkeeps hb] at h
  obtain ⟨s, -, h⟩ := Except.bind_eq_ok.1 h
  obtain ⟨m₁, hquiet, h⟩ := Except.bind_eq_ok.1 h
  obtain ⟨log, hrun⟩ := quiet_eq_ok.1 hquiet
  rw [(limited_eq_ok.1 h).2]
  exact ⟨s.machine m.conditions, env.table.name i.opcode, log, rfl, hrun⟩

lemma branch_conditions {name log : String} {negated : Bool}
    (h : m.branch name negated = (.ok log, m')) : ∃ c, m'.conditions = c :: m.conditions := by
  unfold branch at h
  split at h
  · split at h
    · cases h
    · cases h
      exact ⟨_, rfl⟩
  · cases h
    exact ⟨_, rfl⟩

lemma otherwise_conditions {name log : String} (h : m.otherwise name = (.ok log, m')) :
    ∃ c cs, m.conditions = c :: cs ∧ m'.conditions = (!c) :: cs := by
  unfold otherwise at h
  split at h
  · cases h
  next c cs hcs =>
    cases h
    exact ⟨c, cs, hcs, rfl⟩

lemma endBranch_conditions {name log : String} (h : m.endBranch name = (.ok log, m')) :
    ∃ c, m.conditions = c :: m'.conditions := by
  unfold endBranch at h
  split at h
  · cases h
  next c cs hcs =>
    cases h
    exact ⟨c, hcs⟩

/-- **An instruction** opens, turns over or closes a conditional as its opcode says, whether it
stands in a branch that runs or not. -/
lemma after_conditions (hkeeps : env.table.KeepsConditionals) (h : m.after env i = .ok m') :
    (m'.conditions.length : Int) = m.conditions.length + i.mark.change ∧
      (i.mark.needsOpen = true → 0 < m.conditions.length) := by
  cases hi : i.mark with
  | plain =>
    rw [after_conditions_plain hi h]
    exact ⟨(Int.add_zero _).symm, nofun⟩
  | opens negated =>
    obtain ⟨m₁, name, log, hsame, hrun⟩ := builtin_of_after hkeeps (by rw [hi]; rfl) h
    obtain ⟨c, hc⟩ := branch_conditions hrun
    rw [hc, hsame]
    exact ⟨rfl, nofun⟩
  | alternates =>
    obtain ⟨m₁, name, log, hsame, hrun⟩ := builtin_of_after hkeeps (by rw [hi]; rfl) h
    obtain ⟨c, cs, hc, hc'⟩ := otherwise_conditions hrun
    rw [hc', ← hsame, hc]
    exact ⟨(Int.add_zero _).symm, fun _ => Nat.succ_pos _⟩
  | closes =>
    obtain ⟨m₁, name, log, hsame, hrun⟩ := builtin_of_after hkeeps (by rw [hi]; rfl) h
    obtain ⟨c, hc⟩ := endBranch_conditions hrun
    rw [← hsame, hc, List.length_cons]
    refine ⟨?_, fun _ => Nat.succ_pos _⟩
    change _ = ((m'.conditions.length + 1 : Nat) : Int) + -1
    omega

/-! ### Several instructions -/

lemma afterAll_depth (hkeeps : env.table.KeepsConditionals) (hproper : ∀ i ∈ is, i.IsProper)
    (h : m.afterAll env is = .ok m') : (m'.conditions.length : Int) =
      m.conditions.length + depth (is.map Instruction.opcode) := by
  induction is generalizing m with
  | nil =>
    cases h
    exact (Int.add_zero _).symm
  | cons i is ih =>
    rw [afterAll_cons] at h
    obtain ⟨m₁, hfirst, hrest⟩ := Except.bind_eq_ok.1 h
    have hchange := (after_conditions hkeeps hfirst).1
    have hdepth := ih (fun j hj => hproper j (List.mem_cons_of_mem i hj)) hrest
    rw [(hproper i List.mem_cons_self).mark_eq.1] at hchange
    rw [hdepth, hchange, Int.add_assoc, ← depth_cons, List.map_cons]

lemma matched_of_afterAll (hkeeps : env.table.KeepsConditionals)
    (hproper : ∀ i ∈ is, i.IsProper) (hm : m.conditions = []) (h : m.afterAll env is = .ok m') :
    Matched (is.map Instruction.opcode) := by
  intro before op after hsplit hop
  obtain ⟨front, rest, rfl, rfl, hrest⟩ := List.map_eq_append_iff.1 hsplit
  obtain ⟨i, back, rfl, rfl, -⟩ := List.map_eq_cons_iff.1 hrest
  rw [afterAll_append] at h
  obtain ⟨m₁, hfront, hback⟩ := Except.bind_eq_ok.1 h
  rw [afterAll_cons] at hback
  obtain ⟨m₂, hi, -⟩ := Except.bind_eq_ok.1 hback
  have hdepth := afterAll_depth hkeeps (fun j hj => hproper j (List.mem_append_left _ hj)) hfront
  have hopen := (after_conditions hkeeps hi).2
  rw [(hproper i (by simp)).mark_eq.2] at hopen
  rw [hm, List.length_nil] at hdepth
  have := hopen hop
  omega

lemma nestedFrom_of_afterAll (hkeeps : env.table.KeepsConditionals)
    (h : m.afterAll env is = .ok m') (hm' : m'.conditions = []) :
    nestedFrom m.conditions.length is = true := by
  induction is generalizing m with
  | nil =>
    cases h
    rw [hm']
    rfl
  | cons i is ih =>
    rw [afterAll_cons] at h
    obtain ⟨m₁, hfirst, hrest⟩ := Except.bind_eq_ok.1 h
    have hnested := ih hrest
    obtain ⟨hchange, hopen⟩ := after_conditions hkeeps hfirst
    -- the rest is nested from the depth behind the first instruction, which its mark tells
    cases hi : i.mark with
    | plain =>
      rw [hi, Mark.change] at hchange
      rwa [nestedFrom_plain hi, show m.conditions.length = m₁.conditions.length by omega]
    | opens negated =>
      rw [hi, Mark.change] at hchange
      rwa [nestedFrom_opens hi, show m.conditions.length + 1 = m₁.conditions.length by omega]
    | alternates =>
      rw [hi, Mark.change] at hchange
      obtain ⟨n, hn⟩ := Nat.exists_eq_add_one.2 (hopen (by rw [hi]; rfl))
      rwa [hn, nestedFrom_alternates hi, show n + 1 = m₁.conditions.length by omega]
    | closes =>
      rw [hi, Mark.change] at hchange
      obtain ⟨n, hn⟩ := Nat.exists_eq_add_one.2 (hopen (by rw [hi]; rfl))
      rwa [hn, nestedFrom_closes hi, show n = m₁.conditions.length by omega]

/-! ### Instructions that fail -/

lemma branch_eq_error {name : String} {negated : Bool} {e : Fault}
    (h : m.branch name negated = (.error e, m')) : m' = m := by
  unfold branch at h
  split at h
  · split at h <;> cases h
    rfl
  · cases h

lemma otherwise_eq_error {name : String} {e : Fault} (h : m.otherwise name = (.error e, m')) :
    m' = m := by
  unfold otherwise at h
  split at h <;> cases h
  rfl

lemma endBranch_eq_error {name : String} {e : Fault} (h : m.endBranch name = (.error e, m')) :
    m' = m := by
  unfold endBranch at h
  split at h <;> cases h
  rfl

lemma runBuiltin_conditions {name : String} {offset : Nat} {b : Builtin} {e : Fault}
    (h : m.runBuiltin env name offset b = (.error e, m')) : m'.conditions = m.conditions := by
  cases hb : b.isConditional with
  | false =>
    have hwithin : m.runBuiltin env name offset b = ((m.runBuiltin env name offset b).1,
        (m.runBuiltin env name offset b).2.within m.conditions) := runBuiltin_within hb
    rw [h] at hwithin
    exact congrArg (fun o : Outcome => o.2.conditions) hwithin
  | true =>
    cases b with
    | branch negated => exact congrArg conditions (branch_eq_error h)
    | otherwise => exact congrArg conditions (otherwise_eq_error h)
    | endBranch => exact congrArg conditions (endBranch_eq_error h)
    | _ => cases hb

lemma runHandler_conditions (m : Machine) (env : Env) (op : Opcode) (handler : Handler) :
    (m.runHandler env op handler).2.conditions = m.conditions := by
  cases handler <;> rfl

lemma runOpcode_conditions {op : Opcode} {offset : Nat} {e : Fault}
    (h : m.runOpcode env op offset = (.error e, m')) : m'.conditions = m.conditions := by
  unfold runOpcode at h
  dsimp only at h
  split at h
  · cases h
    rfl
  split at h
  · cases h
    rfl
  split at h
  · cases h
  split at h
  next handler _ =>
    rw [← m.runHandler_conditions env op handler, h]
  next =>
    split at h
    next b _ => exact runBuiltin_conditions h
    next =>
      cases h
      rfl

lemma execute_conditions {e : Fault} (h : m.execute env i = (.error e, m')) :
    m'.conditions = m.conditions := by
  unfold execute push at h
  split at h
  · repeat' split at h
    all_goals cases h
    rfl
  · split at h
    · split at h
      next e' _ =>
        cases h
        rfl
      next counted hcounted =>
        have hsame : counted.conditions = m.conditions := by
          unfold countOps at hcounted
          split at hcounted <;> cases hcounted
          rfl
        exact (runOpcode_conditions h).trans hsame
    · exact runOpcode_conditions h

lemma conditions_of_unterminated
    (h : m.executeChecked env i = (.error .unterminatedConditional, m')) :
    m'.conditions = m.conditions := by
  unfold executeChecked at h
  split at h
  next e m₁ hexecute =>
    cases h
    exact execute_conditions hexecute
  -- stacks that are too large have a fault of another kind
  next log m₁ hexecute => split at h <;> cases h

/-! ### Runs -/

lemma run_conditions (h : ∀ e, (run env is m).fault? = some e → e = .unterminatedConditional)
    (hafter : m.afterAll env (is.take (run env is m).steps.length) = .ok m') :
    (run env is m).machine.conditions = m'.conditions := by
  induction is generalizing m with
  | nil =>
    cases hafter
    rfl
  | cons i is ih =>
    cases hi : m.executeChecked env i with
    | mk reply m₁ =>
      cases reply with
      | error e =>
        rw [run_cons_error hi] at h hafter ⊢
        obtain rfl := h e rfl
        cases hafter
        exact conditions_of_unterminated hi
      | ok log =>
        rw [run_cons_ok hi] at h hafter ⊢
        change m.afterAll env (i :: is.take (run env is m₁).steps.length) = .ok m' at hafter
        rw [afterAll_cons, after_eq_ok.2 ⟨log, hi⟩] at hafter
        exact ih h hafter

lemma afterAll_of_run (hhosts : env.table.HostsOwnFaults false)
    (h : ∀ e, (run env is m).fault? = some e → e = .unterminatedConditional) :
    m.afterAll env is = .ok (run env is m).machine := by
  induction is generalizing m with
  | nil => rfl
  | cons i is ih =>
    cases hi : m.executeChecked env i with
    | mk reply m' =>
      cases reply with
      | error e =>
        rw [run_cons_error hi] at h
        have hspares := m.spares_executeChecked hhosts i
        rw [hi, h e rfl] at hspares
        exact (hspares rfl).elim
      | ok log =>
        rw [run_cons_ok hi] at h ⊢
        rw [afterAll_cons, after_eq_ok.2 ⟨log, hi⟩]
        exact ih h

lemma finish?_eq_some {e : Fault} :
    m.finish? = some e ↔ e = .unterminatedConditional ∧ 0 < m.conditions.length := by
  unfold finish?
  cases m.conditions with
  | nil => simp
  | cons c cs => simp [eq_comm]

lemma run_unterminated_iff (hkeeps : env.table.KeepsConditionals)
    (hhosts : env.table.HostsOwnFaults false) (hproper : ∀ i ∈ is, i.IsProper)
    (hm : m.conditions = []) :
    (run env is m).fault? = some .unterminatedConditional ↔
      (run env is m).steps.length = is.length ∧ 0 < depth (is.map Instruction.opcode) := by
  have hdepth {m' : Machine} (h : m.afterAll env is = .ok m') :
      (m'.conditions.length : Int) = depth (is.map Instruction.opcode) := by
    rw [afterAll_depth hkeeps hproper h, hm, List.length_nil, Int.natCast_zero, Int.zero_add]
  constructor
  · intro hfault
    -- only the end of the run has such a fault, so every instruction has succeeded
    have hall : m.afterAll env is = .ok (run env is m).machine :=
      afterAll_of_run hhosts fun e he => Option.some.inj (he.symm.trans hfault)
    obtain ⟨-, hfinish, hlength⟩ := run_of_afterAll hall
    have hopen := (finish?_eq_some.1 (hfinish.symm.trans hfault)).2
    have := hdepth hall
    exact ⟨hlength, by omega⟩
  · rintro ⟨hlength, hopen⟩
    obtain ⟨-, ⟨m', hall, -⟩, -⟩ := run_shown env is m
    rw [hlength, List.take_length] at hall
    have := hdepth hall
    rw [(run_of_afterAll hall).2.1, finish?_eq_some]
    exact ⟨rfl, by omega⟩

end Machine

lemma opcodes_of_places {steps : List Step} (h : steps.map Step.place = is.map Instruction.place) :
    steps.map Step.opcode = is.map Instruction.opcode := by
  have hops := congrArg (List.map Prod.fst) h
  rwa [List.map_map, List.map_map] at hops

/-! ### Where a run stands -/

namespace Stepper

/-- No instruction is known to have failed: a run goes on, has ended well or has found a
conditional open. -/
def Intact (s : Stepper) : Prop := ∀ e, s.status = .failed e → e = .unterminatedConditional

/-- A run over a script with these instructions that has shown some steps. The instructions shown
lead to a machine, on which the run stands as long as it goes on. -/
structure Stands (env : Env) (stack : Stack) (is : List Instruction) (s : Stepper)
    (steps : List Step) : Prop where
  sameEnv : s.env = env
  places : steps.map Step.place = (is.take steps.length).map Instruction.place
  pending : s.isGoing = true → s.pending = .ok (is.drop steps.length)
  machine : ∃ m, Machine.afterAll { stack := stack } env (is.take steps.length) = .ok m ∧
    (s.isGoing = true → s.machine = m) ∧ (s.Intact → s.machine.conditions = m.conditions)

variable {s : Stepper} {steps : List Step}

lemma intact_of_going (h : s.isGoing = true) : s.Intact := by
  intro e he
  unfold isGoing at h
  rw [he] at h
  cases h

lemma Stands.ended {s' : Stepper} (h : Stands env stack is s steps) (henv : s'.env = s.env)
    (hend : s'.isGoing = false)
    (hm : s'.Intact → s.Intact ∧ s'.machine.conditions = s.machine.conditions) :
    Stands env stack is s' (steps ++ []) := by
  obtain ⟨m, hafter, -, hconditions⟩ := h.machine
  have hstill : s'.isGoing ≠ true := by simp [hend]
  rw [List.append_nil]
  refine ⟨henv.trans h.sameEnv, h.places, (absurd · hstill), m, hafter, (absurd · hstill),
    fun hintact => ?_⟩
  obtain ⟨hintact', hsame⟩ := hm hintact
  exact hsame.trans (hconditions hintact')

lemma Stands.shown {s' : Stepper} {more : List Step} {m : Machine}
    (h : Stands env stack is s steps) (hgoing : s.isGoing = true) (henv : s'.env = s.env)
    (hplaces : more.map Step.place =
      ((is.drop steps.length).take more.length).map Instruction.place)
    (hpending : s'.isGoing = true → s'.pending = .ok ((is.drop steps.length).drop more.length))
    (hafter : s.machine.afterAll env ((is.drop steps.length).take more.length) = .ok m)
    (hm : s'.isGoing = true → s'.machine = m)
    (hconditions : s'.Intact → s'.machine.conditions = m.conditions) :
    Stands env stack is s' (steps ++ more) := by
  obtain ⟨m₁, hfirst, hmachine, -⟩ := h.machine
  rw [hmachine hgoing] at hafter
  refine ⟨henv.trans h.sameEnv, ?_, fun hgoing' => ?_, m, ?_, hm, hconditions⟩
  · rw [List.map_append, h.places, hplaces, List.length_append, List.take_add, List.map_append]
  · rw [hpending hgoing', List.length_append, List.drop_drop]
  · rw [List.length_append, List.take_add, Machine.afterAll_append, hfirst]
    exact hafter

lemma Stands.step (h : Stands env stack is s steps) :
    Stands env stack is s.step.2 (steps ++ s.step.1.steps) := by
  cases hgoing : s.isGoing with
  | false =>
    obtain ⟨hsteps, hs⟩ := step_of_not_going hgoing
    rw [hsteps, hs]
    exact h.ended rfl hgoing fun hintact => ⟨hintact, rfl⟩
  | true =>
    have hintact := intact_of_going hgoing
    have hp := h.pending hgoing
    cases hrest : is.drop steps.length with
    | nil =>
      rw [hrest] at hp
      cases hfinish : s.machine.finish? with
      | some e =>
        rw [step_of_finish hgoing hp hfinish]
        exact h.ended rfl rfl fun _ => ⟨hintact, rfl⟩
      | none =>
        rw [step_of_finished hgoing hp hfinish]
        exact h.ended rfl rfl fun _ => ⟨hintact, rfl⟩
    | cons i rest =>
      rw [hrest] at hp
      cases hi : s.machine.executeChecked s.env i with
      | mk reply m =>
        cases reply with
        | error e =>
          rw [step_error hgoing hp hi]
          refine h.ended rfl rfl fun hfailed => ⟨hintact, ?_⟩
          rw [hfailed e rfl] at hi
          -- the machine may have changed, but not in what is open
          exact Machine.conditions_of_unterminated hi
        | ok log =>
          rw [step_ok hgoing hp hi]
          refine h.shown hgoing rfl (m := m) ?_ (fun _ => ?_) ?_ (fun _ => rfl) fun _ => rfl
          · rw [hrest]
            rfl
          · rw [hrest]
            rfl
          · rw [hrest, ← h.sameEnv]
            change s.machine.after s.env i >>= _ = _
            rw [Machine.after_eq_ok.2 ⟨log, hi⟩]
            rfl

lemma Stands.reported (h : Stands env stack is s steps) (reported : Bool) :
    Stands env stack is { s with reported := reported } steps :=
  ⟨h.sameEnv, h.places, h.pending, h.machine⟩

lemma Stands.next (h : Stands env stack is s steps) :
    Stands env stack is s.next.2 (steps ++ drawnSteps s.next.1) := by
  obtain ⟨reported, hnext⟩ := s.next_eq_step
  rw [drawnSteps_next, hnext]
  exact h.step.reported reported

lemma Stands.run (h : Stands env stack is s steps) :
    Stands env stack is s.run.2 (steps ++ s.run.1.1) := by
  cases hgoing : s.isGoing with
  | false =>
    rw [run_of_ended hgoing]
    exact h.ended rfl hgoing fun hintact => ⟨hintact, rfl⟩
  | true =>
    have hp := h.pending hgoing
    obtain ⟨hplaces, ⟨m, hafter, -⟩, -⟩ :=
      Machine.run_shown s.env (is.drop steps.length) s.machine
    obtain ⟨hend, -⟩ := s.run_cases
    have hstatus := s.status_run
    rw [run_of_ok hgoing hp] at hend hstatus ⊢
    rw [h.sameEnv] at *
    have hstill := Bool.eq_false_iff.1 hend
    refine h.shown hgoing rfl hplaces (absurd · hstill) hafter (absurd · hstill) fun hintact => ?_
    exact Machine.run_conditions (fun e he => hintact e (by rw [hstatus, he])) hafter

lemma stands_start (his : env.script.instructions = .ok is) :
    Stands env stack is (start env stack) [] :=
  ⟨rfl, rfl, fun _ => his, _, rfl, fun _ => rfl, fun _ => rfl⟩

lemma Reaches.stands (h : Reaches env s steps) (his : env.script.instructions = .ok is) :
    ∃ stack, Stands env stack is s steps := by
  induction h with
  | start stack => exact ⟨stack, stands_start his⟩
  | step _ ih => exact ih.imp fun _ => Stands.step
  | next _ ih => exact ih.imp fun _ => Stands.next
  | run _ ih => exact ih.imp fun _ => Stands.run

lemma Reaches.unread (h : Reaches env s steps) {e : Fault}
    (he : env.script.instructions = .error e) : steps = [] ∧ s.machine.conditions = [] := by
  have hstep {s : Stepper} (hp : s.pending = .error e) :
      s.step.1.steps = [] ∧ s.step.2.pending = .error e ∧ s.step.2.machine = s.machine := by
    cases hgoing : s.isGoing with
    | true => rw [step_of_error hgoing hp]; exact ⟨rfl, hp, rfl⟩
    | false =>
      obtain ⟨hsteps, hs⟩ := step_of_not_going hgoing
      rw [hs]
      exact ⟨hsteps, hp, rfl⟩
  have hrun {s : Stepper} (hp : s.pending = .error e) :
      s.run.1.1 = [] ∧ s.run.2.pending = .error e ∧ s.run.2.machine = s.machine := by
    cases hgoing : s.isGoing with
    | true => rw [run_of_error hgoing hp]; exact ⟨rfl, hp, rfl⟩
    | false => rw [run_of_ended hgoing]; exact ⟨rfl, hp, rfl⟩
  -- the induction needs that the run still has no instructions
  suffices hall : steps = [] ∧ s.pending = .error e ∧ s.machine.conditions = [] from
    ⟨hall.1, hall.2.2⟩
  induction h with
  | start stack => exact ⟨rfl, he, rfl⟩
  | step _ ih =>
    obtain ⟨rfl, hp, hc⟩ := ih
    obtain ⟨hsteps, hp', hm⟩ := hstep hp
    rw [hsteps, hm]
    exact ⟨rfl, hp', hc⟩
  | @next s _ _ ih =>
    obtain ⟨rfl, hp, hc⟩ := ih
    obtain ⟨hsteps, hp', hm⟩ := hstep hp
    obtain ⟨reported, hnext⟩ := s.next_eq_step
    rw [drawnSteps_next, hsteps, hnext]
    exact ⟨rfl, hp', (congrArg Machine.conditions hm).trans hc⟩
  | run _ ih =>
    obtain ⟨rfl, hp, hc⟩ := ih
    obtain ⟨hsteps, hp', hm⟩ := hrun hp
    rw [hsteps, hm]
    exact ⟨rfl, hp', hc⟩

/-- **The conditionals that are open** at any point of a run are those that the instructions shown
have opened and not closed. -/
lemma Reaches.depth (hkeeps : env.table.KeepsConditionals) (h : Reaches env s steps) :
    Matched (steps.map Step.opcode) ∧
      (s.Intact → (s.machine.conditions.length : Int) = depth (steps.map Step.opcode)) ∧
      ∀ is, env.script.instructions = .ok is →
        steps.map Step.opcode = (is.take steps.length).map Instruction.opcode := by
  cases his : env.script.instructions with
  | error e =>
    obtain ⟨rfl, hc⟩ := h.unread his
    rw [hc]
    exact ⟨matched_nil, fun _ => rfl, nofun⟩
  | ok is =>
    obtain ⟨stack, hstands⟩ := h.stands his
    obtain ⟨m, hafter, -, hconditions⟩ := hstands.machine
    have hops := opcodes_of_places hstands.places
    have hproper : ∀ i ∈ is.take steps.length, i.IsProper := fun i hi =>
      Script.isProper_of_instructionsFrom his i (List.mem_of_mem_take hi)
    rw [hops]
    refine ⟨Machine.matched_of_afterAll hkeeps hproper rfl hafter, fun hintact => ?_, ?_⟩
    · rw [hconditions hintact, Machine.afterAll_depth hkeeps hproper hafter]
      exact Int.zero_add _
    · rintro _ ⟨⟩
      rfl

end Stepper

/-! ### Whole scripts -/

lemma run_start_eq (env : Env) (stack : Stack) : (Stepper.start env stack).run.1 =
    ((runScript env stack).steps, (runScript env stack).fault?) := by
  cases his : env.script.instructions with
  | error e => rw [Stepper.run_start_of_error his, runScript_error his]
  | ok is => rw [Stepper.run_start his, runScript_ok his]

variable (hkeeps : env.table.KeepsConditionals)
include hkeeps

lemma runScript_depth : Matched ((runScript env stack).steps.map Step.opcode) ∧
    ((runScript env stack).fault? = none →
      depth ((runScript env stack).steps.map Step.opcode) = 0) := by
  cases his : env.script.instructions with
  | error e =>
    rw [runScript_error his]
    exact ⟨matched_nil, fun _ => rfl⟩
  | ok is =>
    rw [runScript_ok his]
    obtain ⟨hplaces, ⟨m, hafter, -⟩, hlength⟩ := Machine.run_shown env is { stack := stack }
    rw [opcodes_of_places hplaces]
    have hproper := Script.isProper_of_instructionsFrom his
    refine ⟨Machine.matched_of_afterAll hkeeps (fun i hi => hproper i (List.mem_of_mem_take hi))
      rfl hafter, fun hfault => ?_⟩
    rw [hlength hfault, List.take_length] at hafter ⊢
    have hfinish := (Machine.run_of_afterAll hafter).2.1
    rw [hfault] at hfinish
    have hdepth := Machine.afterAll_depth hkeeps hproper hafter
    have hclosed : ¬ 0 < m.conditions.length := fun hopen => by
      rw [Machine.finish?_eq_some.2 ⟨rfl, hopen⟩] at hfinish
      cases hfinish
    change _ = ((0 : Nat) : Int) + _ at hdepth
    omega

lemma nested_of_runScript (h : (runScript env stack).fault? = none) :
    ∃ is, env.script.instructions = .ok is ∧ Nested is := by
  cases his : env.script.instructions with
  | error e =>
    rw [runScript_error his] at h
    cases h
  | ok is =>
    rw [runScript_ok his] at h
    obtain ⟨m, hafter, hm⟩ := Machine.run_fault?_eq_none.1 h
    exact ⟨is, rfl, Machine.nestedFrom_of_afterAll hkeeps hafter hm⟩

lemma runScript_unterminated_iff (hhosts : env.table.HostsOwnFaults false) :
    (runScript env stack).fault? = some .unterminatedConditional ↔
      ∃ is, env.script.instructions = .ok is ∧
        (runScript env stack).steps.length = is.length ∧
        0 < depth (is.map Instruction.opcode) := by
  cases his : env.script.instructions with
  | error e =>
    obtain ⟨cause, rfl⟩ := Script.instructionsFrom_eq_error his
    rw [runScript_error his]
    simp
  | ok is =>
    have hiff := Machine.run_unterminated_iff (m := { stack := stack }) hkeeps hhosts
      (Script.isProper_of_instructionsFrom his) rfl
    rw [runScript_ok his, hiff]
    simp

end CoinScript
