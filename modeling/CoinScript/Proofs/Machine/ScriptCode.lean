import CoinScript.Proofs.Machine.Builtin
import CoinScript.Proofs.Machine.Driving
import CoinScript.Proofs.Machine.Faults

/-!
The signed part of a script.

It starts behind the last separator that ran, however the run is driven and even where it has
failed. A separator in a skipped branch or with a handler of the network does not count. So the
signed part is always a whole number of instructions, it reads as these, and no instruction of a
script that reads ends in the fault that bytes do not read.
-/

namespace CoinScript

lemma Builtin.opcode_of_codeSeparator {op : Opcode} (h : ofOpcode? op = some .codeSeparator) :
    op = Opcode.codeSeparator := by
  rcases ofOpcode?_cases h with hnop | ⟨n, hnumber⟩ | hnamed
  · rw [ofOpcode?, if_pos hnop] at h
    cases h
  · cases hnumber
  · refine UInt8.toNat_inj.1 ?_
    generalize op.toNat = n at hnamed ⊢
    unfold named? at hnamed
    split at hnamed <;> cases hnamed
    rfl

namespace Machine

variable {env : Env} {i sep : Instruction} {is js taken left : List Instruction}
  {m m' : Machine} {stack : Stack}

/-! ### Separators that run -/

def separates (m : Machine) (env : Env) (i : Instruction) : Bool :=
  i.data?.isNone && !m.skips i.opcode && (env.table.handler? i.opcode).isNone &&
    Builtin.ofOpcode? i.opcode == some .codeSeparator

lemma data?_of_separates (h : m.separates env i = true) :
    i.opcode = Opcode.codeSeparator ∧ i.data? = none := by
  simp only [separates, Bool.and_eq_true, beq_iff_eq, Option.isNone_iff_eq_none] at h
  exact ⟨Builtin.opcode_of_codeSeparator h.2, h.1.1.1⟩

lemma size_of_separates (h : m.separates env i = true) : i.size = 1 := by
  unfold Instruction.size
  rw [(data?_of_separates h).2]

/-- An instruction that runs as a separator and does not fail at that. Its step may still fail, if
there are too many items on the stacks. -/
def runsSeparator (m : Machine) (env : Env) (i : Instruction) : Bool :=
  (m.execute env i).1.isOk && m.separates env i

lemma codeStart_runBuiltin (m : Machine) (env : Env) (name : String) (offset : Nat) (b : Builtin) :
    (m.runBuiltin env name offset b).2.codeStart =
      if b = .codeSeparator then offset + 1 else m.codeStart := by
  by_cases hseparator : b = .codeSeparator
  · rw [hseparator]
    rfl
  · rw [if_neg hseparator]
    -- a multiple check counts its keys, so it is not among the effects that keep the count
    by_cases hmultisig : ∃ verify, b = .checkMultisig verify
    · obtain ⟨verify, rfl⟩ := hmultisig
      exact codeStart_checkMultisig m env name verify
    · exact (keeps_runBuiltin m env name offset hseparator (not_exists.1 hmultisig)).2

lemma codeStart_runOpcode (m : Machine) (env : Env) (op : Opcode) (offset : Nat) :
    (m.runOpcode env op offset).2.codeStart =
      if ((m.runOpcode env op offset).1.isOk && (!m.skips op && (env.table.handler? op).isNone &&
          Builtin.ofOpcode? op == some .codeSeparator)) = true
        then offset + 1 else m.codeStart := by
  have hskips : (!m.executing && !op.isConditional) = m.skips op := rfl
  unfold runOpcode
  simp only [hskips]
  cases env.table.isDisabled op with
  | true => rfl
  | false =>
    by_cases hver : op = Opcode.verIf ∨ op = Opcode.verNotIf
    · simp only [if_pos hver, Bool.false_eq_true, if_false]
      rfl
    · simp only [if_neg hver, Bool.false_eq_true, if_false]
      cases m.skips op with
      | true => rfl
      | false =>
        cases env.table.handler? op with
        | some handler => cases handler <;> simp [runHandler]
        | none =>
          cases Builtin.ofOpcode? op with
          | none => simp
          | some b =>
            simp only [Bool.false_eq_true, if_false, codeStart_runBuiltin]
            -- no other effect moves the start
            by_cases hseparator : b = .codeSeparator
            · subst hseparator
              rfl
            · simp [hseparator]

lemma skips_of_counted {counted : Machine} {op : Opcode}
    (h : (if Opcode.op16 < op then m.countOps 1 else .ok m) = .ok counted) :
    counted.codeStart = m.codeStart ∧ counted.skips op = m.skips op := by
  split at h
  · rw [(countOps_eq_ok.1 h).2]
    exact ⟨rfl, rfl⟩
  · cases h
    exact ⟨rfl, rfl⟩

lemma execute_of_counted {counted : Machine} (hd : i.data? = none)
    (h : (if Opcode.op16 < i.opcode then m.countOps 1 else .ok m) = .ok counted) :
    m.execute env i = counted.runOpcode env i.opcode i.offset := by
  unfold execute
  rw [hd]
  split at h
  · rename_i hop
    simp only [hop, if_true, h]
  · rename_i hop
    cases h
    simp only [hop, if_false]

lemma execute_of_uncounted {e : Fault} (hd : i.data? = none)
    (h : (if Opcode.op16 < i.opcode then m.countOps 1 else .ok m) = .error e) :
    m.execute env i = (.error e, m) := by
  unfold execute
  rw [hd]
  split at h
  · rename_i hop
    simp only [hop, if_true, h]
  · cases h

/-- **Only a separator that runs** moves the start of the script code, to right behind it. An
instruction that fails leaves it as it is. -/
lemma codeStart_execute (m : Machine) (env : Env) (i : Instruction) :
    (m.execute env i).2.codeStart =
      if m.runsSeparator env i then i.offset + i.size else m.codeStart := by
  rcases i with ⟨op, - | data, offset⟩
  · have hsize : Instruction.size ⟨op, none, offset⟩ = 1 := rfl
    unfold runsSeparator separates
    cases hcounted : (if Opcode.op16 < op then m.countOps 1 else .ok m) with
    | error e =>
      rw [execute_of_uncounted rfl hcounted]
      rfl
    | ok counted =>
      obtain ⟨hcode, hskips⟩ := skips_of_counted hcounted
      rw [hsize, execute_of_counted rfl hcounted]
      simp only [codeStart_runOpcode, hcode, hskips, Option.isNone_none, Bool.true_and]
  · have hdata : m.runsSeparator env ⟨op, some data, offset⟩ = false := by
      simp [runsSeparator, separates]
    rw [hdata]
    exact (keeps_push m data).2

lemma codeStart_after (h : m.after env i = .ok m') :
    m'.codeStart = if m.separates env i then i.offset + i.size else m.codeStart := by
  obtain ⟨log, h⟩ := after_eq_ok.1 h
  have hcode := m.codeStart_execute env i
  unfold runsSeparator at hcode
  rwa [(executeChecked_eq_ok.1 h).1] at hcode

/-! ### Separators that ran -/

/-- The separators among some instructions that run, up to the first instruction that fails. -/
def ranSeparators (env : Env) : List Instruction → Machine → List Instruction
  | [], _ => []
  | i :: is, m =>
    let later := match m.after env i with
      | .ok m' => ranSeparators env is m'
      | .error _ => []
    if m.runsSeparator env i then i :: later else later

/-- Where the script code starts once some separators have run. -/
def startBehind (start : Nat) (seps : List Instruction) : Nat :=
  match seps.getLast? with
  | none => start
  | some sep => sep.offset + sep.size

lemma startBehind_cons (start : Nat) (sep : Instruction) (seps : List Instruction) :
    startBehind start (sep :: seps) = startBehind (sep.offset + sep.size) seps := by
  unfold startBehind
  rw [List.getLast?_cons]
  cases seps.getLast? <;> rfl

lemma startBehind_append (start : Nat) (seps seps' : List Instruction) :
    startBehind start (seps ++ seps') = startBehind (startBehind start seps) seps' := by
  induction seps generalizing start with
  | nil => rfl
  | cons sep seps ih => rw [List.cons_append, startBehind_cons, startBehind_cons, ih]

lemma ranSeparators_cons_ok (h : m.after env i = .ok m') : ranSeparators env (i :: is) m =
    if m.runsSeparator env i then i :: ranSeparators env is m' else ranSeparators env is m' := by
  rw [ranSeparators, h]

lemma ranSeparators_cons_error {e : Fault} (h : m.after env i = .error e) :
    ranSeparators env (i :: is) m = if m.runsSeparator env i then [i] else [] := by
  rw [ranSeparators, h]

lemma ranSeparators_append (h : m.afterAll env is = .ok m') :
    ranSeparators env (is ++ js) m = ranSeparators env is m ++ ranSeparators env js m' := by
  induction is generalizing m with
  | nil =>
    cases h
    rfl
  | cons i is ih =>
    rw [afterAll_cons] at h
    obtain ⟨m₁, hfirst, hrest⟩ := Except.bind_eq_ok.1 h
    rw [List.cons_append, ranSeparators_cons_ok hfirst, ranSeparators_cons_ok hfirst, ih hrest]
    split <;> rfl

lemma mem_ranSeparators (h : sep ∈ ranSeparators env is m) :
    sep ∈ is ∧ sep.opcode = Opcode.codeSeparator ∧ sep.data? = none := by
  induction is generalizing m with
  | nil => cases h
  | cons i is ih =>
    have hhead (later : List Instruction)
        (hlater : sep ∈ later → sep ∈ is ∧ sep.opcode = Opcode.codeSeparator ∧ sep.data? = none)
        (h : sep ∈ if m.runsSeparator env i then i :: later else later) :
        sep ∈ i :: is ∧ sep.opcode = Opcode.codeSeparator ∧ sep.data? = none := by
      by_cases hruns : m.runsSeparator env i = true
      · rw [if_pos hruns] at h
        rcases List.mem_cons.1 h with rfl | h
        · exact ⟨List.mem_cons_self, data?_of_separates (Bool.and_eq_true_iff.1 hruns).2⟩
        · exact (hlater h).imp_left (List.mem_cons_of_mem i)
      · rw [if_neg hruns] at h
        exact (hlater h).imp_left (List.mem_cons_of_mem i)
    cases hafter : m.after env i with
    | ok m' =>
      rw [ranSeparators_cons_ok hafter] at h
      exact hhead _ ih h
    | error e =>
      rw [ranSeparators_cons_error hafter] at h
      exact hhead [] nofun h

/-! ### Where the script code starts -/

lemma codeStart_executeChecked (m : Machine) (env : Env) (i : Instruction) :
    (m.executeChecked env i).2.codeStart = startBehind m.codeStart (ranSeparators env [i] m) := by
  have hsame : (m.executeChecked env i).2 = (m.execute env i).2 := by
    unfold executeChecked
    rcases m.execute env i with ⟨reply, m₁⟩
    cases reply with
    | error e => rfl
    | ok log =>
      simp only
      split <;> rfl
  have hone : ranSeparators env [i] m = if m.runsSeparator env i then [i] else [] := by
    cases hafter : m.after env i with
    | ok m' => exact ranSeparators_cons_ok hafter
    | error e => exact ranSeparators_cons_error hafter
  rw [hsame, codeStart_execute, hone]
  split <;> rfl

/-- **A run leaves the start of the script code** behind the last separator that ran, whether or
not an instruction has failed. -/
lemma codeStart_run (env : Env) (is : List Instruction) (m : Machine) :
    (run env is m).machine.codeStart = startBehind m.codeStart (ranSeparators env is m) := by
  induction is generalizing m with
  | nil => rfl
  | cons i is ih =>
    have hfirst := m.codeStart_executeChecked env i
    cases hi : m.executeChecked env i with
    | mk reply m' =>
      rw [hi] at hfirst
      cases reply with
      | error e =>
        have hafter : m.after env i = .error e := by
          unfold after
          rw [hi]
        rw [ranSeparators_cons_error hafter] at hfirst
        rw [run_cons_error hi, ranSeparators_cons_error hafter]
        exact hfirst
      | ok log =>
        have hafter : m.after env i = .ok m' := after_eq_ok.2 ⟨log, hi⟩
        have hall : m.afterAll env [i] = .ok m' := by
          rw [afterAll_cons, hafter]
          rfl
        rw [run_cons_ok hi]
        change (run env is m').machine.codeStart = _
        rw [ih, hfirst, ← startBehind_append, ← ranSeparators_append hall]
        rfl

/-! ### What is signed -/

/-- What a machine signs that has taken some instructions, with others left, if a certain separator
was the last that ran: all that follows the separator, or the whole script if none ran. -/
def SignsBehind (m : Machine) (env : Env) (taken left : List Instruction) :
    Option Instruction → Prop
  | none => m.codeStart = 0 ∧ m.code env = env.script
  | some sep =>
    sep.opcode = Opcode.codeSeparator ∧ sep.data? = none ∧ m.codeStart = sep.offset + 1 ∧
      env.script.subscriptAfter sep.offset = .ok (m.code env) ∧
      ∃ before behind, taken = before ++ sep :: behind ∧
        (m.code env).instructions =
          .ok ((behind ++ left).map (Instruction.moveUp m.codeStart))

lemma signsBehind_of_codeStart (his : env.script.instructions = .ok (taken ++ left))
    (hstart : m.codeStart = startBehind 0 (ranSeparators env taken { stack := stack })) :
    m.SignsBehind env taken left (ranSeparators env taken { stack := stack }).getLast? := by
  unfold startBehind at hstart
  cases hlast : (ranSeparators env taken { stack := stack }).getLast? with
  | none =>
    rw [hlast] at hstart
    have hstart : m.codeStart = 0 := hstart
    refine ⟨hstart, ?_⟩
    rw [code, hstart, List.drop_zero]
  | some sep =>
    rw [hlast] at hstart
    have hstart : m.codeStart = sep.offset + sep.size := hstart
    obtain ⟨hmem, hopcode, hdata⟩ := mem_ranSeparators (List.mem_of_getLast? hlast)
    -- a separator without data is one byte long, so the code starts right behind it
    have hsize : sep.size = 1 := by
      unfold Instruction.size
      rw [hdata]
    obtain ⟨before, behind, rfl⟩ := List.append_of_mem hmem
    rw [List.append_assoc, List.cons_append] at his
    obtain ⟨hsubscript, hinstructions⟩ := Script.subscriptAfter_eq his
    have hcode : m.code env = ⟨env.script.bytes.drop (sep.offset + sep.size)⟩ := by
      rw [code, hstart]
    rw [hsize] at hstart
    refine ⟨hopcode, hdata, hstart, hcode ▸ hsubscript, before, behind, rfl, ?_⟩
    rw [hcode, hinstructions, hstart, hsize]

lemma SignsBehind.readable {last? : Option Instruction} (h : m.SignsBehind env taken left last?)
    (his : env.script.instructions = .ok (taken ++ left)) :
    ∃ js, (m.code env).instructions = .ok js := by
  cases last? with
  | none => exact ⟨_, h.2 ▸ his⟩
  | some sep =>
    obtain ⟨-, -, -, -, before, behind, -, hinstructions⟩ := h
    exact ⟨_, hinstructions⟩

lemma SignsBehind.within {last? : Option Instruction} (h : m.SignsBehind env taken left last?)
    (his : env.script.instructions = .ok (taken ++ left)) :
    m.codeStart ≤ env.script.bytes.length := by
  cases last? with
  | none => exact h.1 ▸ Nat.zero_le _
  | some sep =>
    obtain ⟨-, hdata, hstart, -, before, behind, rfl, -⟩ := h
    rw [List.append_assoc, List.cons_append] at his
    have hsize : sep.size = 1 := by
      unfold Instruction.size
      rw [hdata]
    rw [hstart, Script.offset_of_instructions his, Script.bytes_of_instructions his]
    simp only [spanOf, List.flatMap_append, List.flatMap_cons, List.length_append,
      Instruction.length_encode, hsize]
    omega

lemma codeStart_of_afterAll (h : Machine.afterAll { stack := stack } env taken = .ok m) :
    m.codeStart = startBehind 0 (ranSeparators env taken { stack := stack }) := by
  rw [← (run_of_afterAll h).1]
  exact codeStart_run env taken { stack := stack }

lemma ownFault_code (his : env.script.instructions = .ok (taken ++ left))
    (h : Machine.afterAll { stack := stack } env taken = .ok m) :
    OwnFault true (m.code env).instructions := by
  have hsigns := signsBehind_of_codeStart his (codeStart_of_afterAll h)
  obtain ⟨js, hjs⟩ := hsigns.readable his
  exact Script.ownFault_of_instructions hjs

/-- **No instruction of a script that reads** ends in the fault that bytes do not read. -/
lemma fault?_run (his : env.script.instructions = .ok (taken ++ left))
    (h : Machine.afterAll { stack := stack } env taken = .ok m)
    (hhosts : env.table.HostsOwnFaults true) (cause : ParseFault) :
    (run env left m).fault? ≠ some (.parse cause) := by
  induction left generalizing taken m with
  | nil =>
    rw [run_nil]
    intro hfault
    rw [finish?] at hfault
    split at hfault <;> cases hfault
  | cons i left ih =>
    have hown := m.ownFault_executeChecked (ownFault_code his h) hhosts i
    cases hi : m.executeChecked env i with
    | mk reply m' =>
      rw [hi] at hown
      cases reply with
      | error e =>
        rw [run_cons_error hi]
        rintro ⟨⟩
        cases hown _ rfl
      | ok log =>
        rw [run_cons_ok hi]
        have hsplit : env.script.instructions = .ok ((taken ++ [i]) ++ left) := by
          rw [his, List.append_assoc, List.singleton_append]
        refine ih hsplit ?_
        rw [afterAll_append, h, Except.ok_bind, afterAll_cons, after_eq_ok.2 ⟨log, hi⟩]
        rfl

end Machine

/-! ### However a run is driven -/

namespace Stepper

variable {env : Env} {stack : Stack} {s : Stepper} {is taken left : List Instruction}

/-- A run that has taken some instructions of its script, the last of which may have failed, with
others left. -/
structure Took (env : Env) (stack : Stack) (s : Stepper) (taken left : List Instruction) :
    Prop where
  sameEnv : s.env = env
  pending : s.pending = .ok left
  codeStart : s.machine.codeStart =
    Machine.startBehind 0 (Machine.ranSeparators env taken { stack := stack })
  machine : s.isGoing = true → Machine.afterAll { stack := stack } env taken = .ok s.machine

/-- A run that has taken the first instructions of its script, and none of the others. -/
def TookSome (env : Env) (stack : Stack) (is : List Instruction) (s : Stepper) : Prop :=
  ∃ taken left, is = taken ++ left ∧ Took env stack s taken left

lemma Took.ended {s' : Stepper} (h : Took env stack s taken left) (henv : s'.env = s.env)
    (hpending : s'.pending = s.pending) (hmachine : s'.machine = s.machine)
    (hend : s'.isGoing = false) : Took env stack s' taken left where
  sameEnv := henv.trans h.sameEnv
  pending := hpending.trans h.pending
  codeStart := hmachine ▸ h.codeStart
  machine hgoing := by
    rw [hend] at hgoing
    cases hgoing

lemma tookSome_start (his : env.script.instructions = .ok is) (stack : Stack) :
    TookSome env stack is (start env stack) :=
  ⟨[], is, rfl, rfl, his, rfl, fun _ => rfl⟩

lemma TookSome.step (h : TookSome env stack is s) : TookSome env stack is s.step.2 := by
  obtain ⟨taken, left, rfl, h⟩ := h
  cases hgoing : s.isGoing with
  | false =>
    rw [(step_of_not_going hgoing).2]
    exact ⟨taken, left, rfl, h⟩
  | true =>
    have hp := h.pending
    cases left with
    | nil =>
      refine ⟨taken, [], rfl, ?_⟩
      cases hfinish : s.machine.finish? with
      | some e =>
        rw [step_of_finish hgoing hp hfinish]
        exact h.ended rfl rfl rfl rfl
      | none =>
        rw [step_of_finished hgoing hp hfinish]
        exact h.ended rfl rfl rfl rfl
    | cons i left =>
      have hafter := h.machine hgoing
      -- even if the instruction fails, what it did to the start of the code is known
      have hcode := s.machine.codeStart_executeChecked env i
      rw [h.codeStart, ← Machine.startBehind_append, ← Machine.ranSeparators_append hafter] at hcode
      refine ⟨taken ++ [i], left, by simp, ?_⟩
      cases hi : s.machine.executeChecked env i with
      | mk reply m =>
        rw [hi] at hcode
        have hi' := hi
        rw [← h.sameEnv] at hi'
        cases reply with
        | error e =>
          rw [step_error hgoing hp hi']
          exact ⟨h.sameEnv, rfl, hcode, nofun⟩
        | ok log =>
          rw [step_ok hgoing hp hi']
          refine ⟨h.sameEnv, rfl, hcode, fun _ => ?_⟩
          rw [Machine.afterAll_append, hafter, Except.ok_bind, Machine.afterAll_cons,
            Machine.after_eq_ok.2 ⟨log, hi⟩]
          rfl

lemma TookSome.next (h : TookSome env stack is s) : TookSome env stack is s.next.2 := by
  obtain ⟨reported, hnext⟩ := s.next_eq_step
  obtain ⟨taken, left, his, hstep⟩ := h.step
  rw [hnext]
  exact ⟨taken, left, his, hstep.sameEnv, hstep.pending, hstep.codeStart, hstep.machine⟩

lemma TookSome.run (h : TookSome env stack is s) : TookSome env stack is s.run.2 := by
  cases hgoing : s.isGoing with
  | false =>
    rw [(run_of_not_going hgoing).2]
    exact h
  | true =>
    have hend := s.run_cases.1
    obtain ⟨taken, left, rfl, h⟩ := h
    have hcode := Machine.codeStart_run env left s.machine
    rw [h.codeStart, ← Machine.startBehind_append,
      ← Machine.ranSeparators_append (h.machine hgoing), ← h.sameEnv] at hcode
    rw [run_of_ok hgoing h.pending] at hend ⊢
    refine ⟨taken ++ left, [], (List.append_nil _).symm, h.sameEnv, rfl, ?_, fun hgoing' => ?_⟩
    · rw [← h.sameEnv]
      exact hcode
    · rw [hend] at hgoing'
      cases hgoing'

lemma TookSome.askAll (h : TookSome env stack is s) (requests : List Request) :
    TookSome env stack is (s.askAll requests).2 := by
  induction requests generalizing s with
  | nil => exact h
  | cons r rs ih =>
    refine ih ?_
    cases r with
    | step => exact h.step
    | next => exact h.next
    | run => exact h.run

/-- **The signed part of a script** is always all that follows the last separator that ran, or the
whole script as long as none did. Wherever a run stands that has been asked for some things, it has
taken the first of its instructions and none of the others; its script code starts within the
script, right behind that separator, and is what the script gives as its part after it, which reads
as the instructions that come there, moved up. So neither an answer nor the status of the run is
ever the fault that bytes do not read, unless a function of the host refuses with it. -/
theorem signsBehind_askAll (his : env.script.instructions = .ok is) (stack : Stack)
    (requests : List Request) :
    let answers := ((start env stack).askAll requests).1
    let s := ((start env stack).askAll requests).2
    (∃ taken left, is = taken ++ left ∧ s.pending = .ok left ∧
      s.machine.codeStart ≤ env.script.bytes.length ∧
      s.machine.SignsBehind env taken left
        (Machine.ranSeparators env taken { stack := stack }).getLast?) ∧
    (env.table.HostsOwnFaults true →
      (∀ cause, s.status ≠ .failed (.parse cause)) ∧
      ∀ a ∈ answers, ∀ cause, a.fault? ≠ some (.parse cause)) := by
  have hfault (hhosts : env.table.HostsOwnFaults true) (cause : ParseFault) :
      (start env stack).run.1.2 ≠ some (.parse cause) := by
    have hnone : Machine.afterAll { stack := stack } env [] = .ok { stack := stack } := rfl
    rw [run_start his]
    exact Machine.fault?_run his hnone hhosts cause
  refine ⟨?_, fun hhosts => ⟨fun cause hstatus => ?_, fun a ha cause hanswer => ?_⟩⟩
  · obtain ⟨taken, left, rfl, htook⟩ := (tookSome_start his stack).askAll requests
    have hsigns := Machine.signsBehind_of_codeStart his htook.codeStart
    exact ⟨taken, left, rfl, htook.pending, hsigns.within his, hsigns⟩
  · exact hfault hhosts cause ((continues_askAll _ requests).fault_of_failed hstatus)
  · exact hfault hhosts cause (fault_of_mem ha hanswer)

/-- A script with two separators, of which the first stands in a branch that is skipped. -/
def skippedSeparator : Env where
  table := OpcodeTable.timeLocked
  setting := {}
  phase := .standalone
  script := ⟨[0x00, 0x63, 0xab, 0x68, 0xab, 0x51, 0x61]⟩

def skippedSeparatorInstructions : List Instruction :=
  [⟨0x00, some [], 0⟩, ⟨0x63, none, 1⟩, ⟨0xab, none, 2⟩, ⟨0x68, none, 3⟩, ⟨0xab, none, 4⟩,
    ⟨0x51, none, 5⟩, ⟨0x61, none, 6⟩]

theorem signsBehind_skippedSeparator :
    let s := ((start skippedSeparator []).askAll [.step, .next, .run]).2
    s.machine.codeStart = 5 ∧ s.machine.code skippedSeparator = ⟨[0x51, 0x61]⟩ ∧
      ∀ cause, s.status ≠ .failed (.parse cause) := by
  have his : skippedSeparator.script.instructions = .ok skippedSeparatorInstructions := rfl
  obtain ⟨⟨taken, left, hsplit, hpending, -, hsigns⟩, hfaults⟩ :=
    signsBehind_askAll his [] [.step, .next, .run]
  obtain ⟨hstatus, -⟩ := hfaults OpcodeTable.registered_timeLocked.hostsOwnFaults
  have hleft : left = [] := Except.ok.inj (hpending.symm.trans rfl)
  rw [hleft, List.append_nil] at hsplit
  rw [hleft, ← hsplit] at hsigns
  have hlast : (Machine.ranSeparators skippedSeparator skippedSeparatorInstructions {}).getLast? =
      some ⟨0xab, none, 4⟩ := by decide +kernel
  rw [hlast] at hsigns
  obtain ⟨-, -, hstart, hsubscript, -⟩ := hsigns
  have hcode : skippedSeparator.script.subscriptAfter 4 = .ok ⟨[0x51, 0x61]⟩ := rfl
  exact ⟨hstart, Except.ok.inj (hsubscript.symm.trans hcode), hstatus⟩

end Stepper

end CoinScript
