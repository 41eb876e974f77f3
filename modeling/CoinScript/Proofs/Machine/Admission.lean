import CoinScript.Proofs.Except
import CoinScript.Proofs.Machine.Run

/-!
What an instruction does, in two parts: it is admitted, and then it takes effect.

Admission looks at the size of a push, the number of operations and the opcodes that are refused
everywhere, and counts. It does not depend on the stacks or on open conditionals. Only an
instruction that is admitted takes effect, if it runs at all.
-/

namespace CoinScript

/-- Why an opcode is refused wherever it stands. -/
def Env.refusal? (env : Env) (op : Opcode) : Option Fault :=
  if env.table.isDisabled op then some (.disabledOpcode (env.table.name op))
  else if op = Opcode.verIf ∨ op = Opcode.verNotIf then
    some (.unsupportedOpcode (env.table.name op))
  else none

/-- The checks that an instruction must pass wherever it stands. They come to the number of
operations with it, of which there were `ops` before. -/
def Instruction.admit (i : Instruction) (env : Env) (ops : Nat) : Except Fault Nat :=
  match i.data? with
  | some data =>
    if maxItemSize < data.length then .error (.pushSize data.length maxItemSize) else .ok ops
  | none =>
    let counted := if Opcode.op16 < i.opcode then ops + 1 else ops
    if ops < counted ∧ maxOps < counted then .error (.opCountExceeded maxOps)
    else
      match env.refusal? i.opcode with
      | some e => .error e
      | none => .ok counted

def Outcome.quiet (o : Outcome) : Except Fault Machine :=
  match o with
  | (.ok _, m) => .ok m
  | (.error e, _) => .error e

def Machine.after (m : Machine) (env : Env) (i : Instruction) : Except Fault Machine :=
  match m.executeChecked env i with
  | (.ok _, m) => .ok m
  | (.error e, _) => .error e

namespace Machine

variable {env : Env} {i : Instruction} {is js : List Instruction} {m m' : Machine}

def limited (m : Machine) : Except Fault Machine :=
  if maxStackSize < m.size then .error (.stackSizeExceeded m.size maxStackSize) else .ok m

lemma limited_eq_ok : m.limited = .ok m' ↔ m.size ≤ maxStackSize ∧ m' = m := by
  unfold limited
  by_cases hsize : maxStackSize < m.size
  · rw [if_pos hsize]
    constructor
    · intro h
      cases h
    · rintro ⟨hle, -⟩
      omega
  · rw [if_neg hsize]
    constructor
    · intro h
      cases h
      exact ⟨by omega, rfl⟩
    · rintro ⟨-, rfl⟩
      rfl

/-- What an opcode that runs does. -/
def perform (m : Machine) (env : Env) (op : Opcode) (offset : Nat) : Outcome :=
  match env.table.handler? op with
  | some handler => m.runHandler env op handler
  | none =>
    match Builtin.ofOpcode? op with
    | some b => m.runBuiltin env (env.table.name op) offset b
    | none => (.error (.unsupportedOpcode (env.table.name op)), m)

def effect (m : Machine) (env : Env) (i : Instruction) : Except Fault Machine :=
  match i.data? with
  | some data => .ok (if m.executing then { m with stack := data :: m.stack } else m)
  | none => if m.skips i.opcode then .ok m else (m.perform env i.opcode i.offset).quiet

lemma quiet_eq_ok {o : Outcome} : o.quiet = .ok m ↔ ∃ log, o = (.ok log, m) := by
  rcases o with ⟨reply, m'⟩
  cases reply with
  | error e => simp [Outcome.quiet]
  | ok log => simp [Outcome.quiet]

lemma after_eq_ok : m.after env i = .ok m' ↔
    ∃ log, m.executeChecked env i = (.ok log, m') :=
  quiet_eq_ok

lemma quiet_push {data : Bytes} : (m.push data).quiet =
    if maxItemSize < data.length then .error (.pushSize data.length maxItemSize)
    else .ok (if m.executing then { m with stack := data :: m.stack } else m) := by
  unfold push
  split
  · rfl
  · split <;> rfl

lemma quiet_runOpcode {op : Opcode} {offset : Nat} : (m.runOpcode env op offset).quiet =
    match env.refusal? op with
    | some e => .error e
    | none => if m.skips op then .ok m else (m.perform env op offset).quiet := by
  unfold runOpcode skips perform Env.refusal?
  by_cases hdisabled : env.table.isDisabled op = true
  · simp only [hdisabled, if_true]
    rfl
  · by_cases hver : op = Opcode.verIf ∨ op = Opcode.verNotIf
    · simp only [hdisabled, hver, if_true, Bool.false_eq_true, if_false]
      rfl
    · simp only [hdisabled, hver, Bool.false_eq_true, if_false]
      split <;> rfl

/-- **An instruction is admitted and then takes effect.** -/
lemma quiet_execute : (m.execute env i).quiet =
    i.admit env m.opCount >>= fun n => { m with opCount := n }.effect env i := by
  unfold execute Instruction.admit effect
  cases i.data? with
  | some data =>
    simp only [quiet_push]
    by_cases hsize : maxItemSize < data.length
    · simp only [hsize, if_true]
      rfl
    · simp only [hsize, if_false]
      rfl
  | none =>
    by_cases hop : Opcode.op16 < i.opcode
    · unfold countOps
      by_cases hops : maxOps < m.opCount + 1
      · simp only [hop, hops, Nat.lt_succ_self, if_true, and_self]
        rfl
      · simp only [hop, hops, if_true, if_false, and_false, quiet_runOpcode]
        cases env.refusal? i.opcode with
        | some e => rfl
        | none => rfl
    · simp only [hop, Nat.lt_irrefl, if_false, false_and, quiet_runOpcode]
      cases env.refusal? i.opcode with
      | some e => rfl
      | none => rfl

lemma after_eq_quiet : m.after env i = (m.execute env i).quiet >>= limited := by
  unfold after executeChecked limited
  rcases m.execute env i with ⟨reply, m'⟩
  cases reply with
  | error e => rfl
  | ok log =>
    by_cases hsize : maxStackSize < m'.size
    · simp [Outcome.quiet, hsize, bind, Except.bind]
    · simp [Outcome.quiet, hsize, bind, Except.bind]

lemma after_eq : m.after env i =
    i.admit env m.opCount >>= fun n => { m with opCount := n }.effect env i >>= limited := by
  rw [after_eq_quiet, quiet_execute, bind_assoc]

/-! ### Several instructions -/

def afterAll (m : Machine) (env : Env) (is : List Instruction) : Except Fault Machine :=
  is.foldlM (fun m i => m.after env i) m

@[simp] lemma afterAll_nil : m.afterAll env [] = .ok m := rfl

lemma afterAll_cons : m.afterAll env (i :: is) = m.after env i >>= fun m => m.afterAll env is :=
  List.foldlM_cons

lemma afterAll_append :
    m.afterAll env (is ++ js) = m.afterAll env is >>= fun m => m.afterAll env js :=
  List.foldlM_append

lemma size_of_after (h : m.after env i = .ok m') : m'.size ≤ maxStackSize := by
  rw [after_eq_quiet] at h
  obtain ⟨m₁, -, h⟩ := Except.bind_eq_ok.1 h
  obtain ⟨hsize, rfl⟩ := limited_eq_ok.1 h
  exact hsize

lemma size_of_afterAll (hm : m.size ≤ maxStackSize) (h : m.afterAll env is = .ok m') :
    m'.size ≤ maxStackSize := by
  induction is generalizing m with
  | nil =>
    cases h
    exact hm
  | cons i is ih =>
    rw [afterAll_cons] at h
    obtain ⟨m₁, hi, hrest⟩ := Except.bind_eq_ok.1 h
    exact ih (size_of_after hi) hrest

lemma run_of_afterAll (h : m.afterAll env is = .ok m') :
    (run env is m).machine = m' ∧ (run env is m).fault? = m'.finish? ∧
      (run env is m).steps.length = is.length := by
  induction is generalizing m with
  | nil =>
    cases h
    exact ⟨rfl, rfl, rfl⟩
  | cons i is ih =>
    rw [afterAll_cons] at h
    obtain ⟨m₁, hfirst, hrest⟩ := Except.bind_eq_ok.1 h
    obtain ⟨log, hi⟩ := after_eq_ok.1 hfirst
    obtain ⟨hmachine, hfault, hlength⟩ := ih hrest
    rw [run_cons_ok hi]
    exact ⟨hmachine, hfault, congrArg (· + 1) hlength⟩

lemma run_machine (h : m.afterAll env is = .ok m') : (run env is m).machine = m' :=
  (run_of_afterAll h).1

lemma run_fault?_eq_none : (run env is m).fault? = none ↔
    ∃ m', m.afterAll env is = .ok m' ∧ m'.conditions = [] := by
  induction is generalizing m with
  | nil => simp [run, finish?]
  | cons i is ih =>
    rw [afterAll_cons, run]
    unfold after
    rcases m.executeChecked env i with ⟨reply, m₁⟩
    cases reply with
    | error e => simp
    | ok log => exact ih

end Machine

end CoinScript
