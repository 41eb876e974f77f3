import CoinScript.Proofs.Machine.ScriptCode
import CoinScript.Proofs.Positional.Signature

/-!
Runs by position.

A machine that runs every opcode on the row of its stack, by position, takes the steps that the
machine takes which runs them on the stack. So a run never goes out of range, whatever the table,
the script, the stack and the setting are, and however many steps are asked for. The invariant is
about the script code: its start and the instructions that are left lie within the script.
-/

namespace CoinScript

/-! ### Handlers -/

/-- Whether a handler looks at the stack under some rules. -/
def NamedHandler.looks (h : NamedHandler) (flags : Flags) : Bool :=
  match h with
  | .checkLockTime => flags.has Flags.checkLockTime
  | .checkSequence => flags.has Flags.checkSequence
  | .nop => false

namespace NamedHandler

variable {h : NamedHandler} {setting : Setting} {name : String}

lemma run_cons (a : Bytes) (s : Stack) : h.run setting name (a :: s) = h.run setting name [a] := by
  cases h <;> rfl

lemma run_nil_of_looks (hlooks : h.looks setting.flags = true) :
    h.run setting name [] = .error (.missingOperands name 1) := by
  cases h with
  | checkLockTime =>
    have hflag : setting.flags.has Flags.checkLockTime = true := hlooks
    simp only [run, TimeLock.checkLockTime, hflag]
    rfl
  | checkSequence =>
    have hflag : setting.flags.has Flags.checkSequence = true := hlooks
    simp only [run, TimeLock.checkSequence, hflag]
    rfl
  | nop => cases hlooks

lemma run_of_not_looks (hlooks : h.looks setting.flags = false) (s : Stack) :
    h.run setting name s = h.run setting name [] := by
  cases h with
  | checkLockTime =>
    have hflag : setting.flags.has Flags.checkLockTime = false := hlooks
    simp only [run, TimeLock.checkLockTime, hflag]
    rfl
  | checkSequence =>
    have hflag : setting.flags.has Flags.checkSequence = false := hlooks
    simp only [run, TimeLock.checkSequence, hflag]
    rfl
  | nop => rfl

end NamedHandler

namespace Positional

/-- Runs a handler that a configuration can name, on the top item alone where it looks at any. -/
def handler (h : NamedHandler) (setting : Setting) (name : String) : Positional String := do
  if h.looks setting.flags then
    require name 1
    ofExcept (h.run setting name [← peek 1])
  else ofExcept (h.run setting name [])

lemma computes_handler (h : NamedHandler) (setting : Setting) (name : String) :
    Computes (handler h setting name) fun s => (h.run setting name s, s) := by
  intro s
  rcases hlooks : h.looks setting.flags with - | -
  · simp [handler, hlooks, NamedHandler.run_of_not_looks hlooks s]
  · cases s with
    | nil => simp [handler, hlooks, NamedHandler.run_nil_of_looks hlooks, require_of_lt]
    | cons a s => simp [handler, hlooks, NamedHandler.run_cons a s, require_of_le]

end Positional

namespace Machine

variable {env : Env} {m m' : Machine} {name : String} {i : Instruction}

/-- Computes on the row of the main stack, and goes on unless that refuses. -/
def withRow {α : Type} (m : Machine) (f : Positional α) (k : α → Machine → Option Outcome) :
    Option Outcome :=
  match f m.stack.reverse with
  | none => none
  | some (.error e, row) => some (.error e, { m with stack := row.reverse })
  | some (.ok a, row) => k a { m with stack := row.reverse }

def onRow (m : Machine) (f : Positional String) : Option Outcome :=
  m.withRow f fun log m => some (.ok log, m)

section WithRow

variable {α : Type} {f : Positional α} {k : α → Machine → Option Outcome}

lemma withRow_of_error {e : Fault}
    (h : f m.stack.reverse = some (.error e, m.stack.reverse)) :
    m.withRow f k = some (.error e, m) := by
  rw [withRow, h]
  simp only [List.reverse_reverse]

lemma withRow_of_ok {a : α} {left : Stack}
    (h : f m.stack.reverse = some (.ok a, left.reverse)) :
    m.withRow f k = k a { m with stack := left } := by
  rw [withRow, h]
  simp only [List.reverse_reverse]

end WithRow

lemma onRow_eq {f : Positional String} {e : Effect} (h : Positional.Computes f e) :
    m.onRow f = some (m.onStack e) := by
  unfold onRow withRow onStack
  rw [h]
  rcases e m.stack with ⟨reply, left⟩
  cases reply <;> simp

/-- Takes the one operand of an opcode off. -/
def operand (name : String) : Positional Bytes := do
  Positional.require name 1
  Positional.pop

lemma operand_of_nil (h : m.stack = []) :
    operand name m.stack.reverse = some (.error (.missingOperands name 1), m.stack.reverse) := by
  rw [h]
  rfl

lemma operand_of_cons {a : Bytes} {s : Stack} (h : m.stack = a :: s) :
    operand name m.stack.reverse = some (.ok a, s.reverse) := by
  simp [h, operand, Positional.require_of_le]

def branchAt (m : Machine) (name : String) (negated : Bool) : Option Outcome :=
  if m.executing then
    m.withRow (operand name) fun a m =>
      let holds := Number.truthy a != negated
      some (.ok (s!"{name}: " ++ (if holds then "executing" else "skipping") ++ " branch"),
        { m with conditions := holds :: m.conditions })
  else some (m.branch name negated)

def toAltstackAt (m : Machine) (name : String) : Option Outcome :=
  m.withRow (operand name) fun a m =>
    some (.ok s!"{name}: moved item to altstack", { m with altstack := a :: m.altstack })

def checkMultisigAt (m : Machine) (env : Env) (name : String) (verify : Bool) : Option Outcome :=
  m.withRow (Positional.keyCount name) fun keyCount m =>
    match m.countOps keyCount with
    | .error e => some (.error e, m)
    | .ok m =>
      m.onRow (Positional.checkMultisig env.setting env.script m.codeStart name verify keyCount)

lemma branchAt_eq (m : Machine) (name : String) (negated : Bool) :
    m.branchAt name negated = some (m.branch name negated) := by
  unfold branchAt branch
  by_cases hexec : m.executing = true
  · rw [if_pos hexec, if_pos hexec]
    rcases hs : m.stack with - | ⟨a, s⟩
    · exact withRow_of_error (operand_of_nil hs)
    · exact withRow_of_ok (operand_of_cons hs)
  · rw [if_neg hexec, if_neg hexec]

lemma toAltstackAt_eq (m : Machine) (name : String) :
    m.toAltstackAt name = some (m.toAltstack name) := by
  unfold toAltstackAt toAltstack
  rcases hs : m.stack with - | ⟨a, s⟩
  · exact withRow_of_error (operand_of_nil hs)
  · exact withRow_of_ok (operand_of_cons hs)

lemma checkMultisigAt_eq (hstart : m.codeStart ≤ env.script.bytes.length) (verify : Bool) :
    m.checkMultisigAt env name verify = some (m.checkMultisig env name verify) := by
  unfold checkMultisigAt checkMultisig
  rcases hs : m.stack with - | ⟨count, s⟩
  · refine withRow_of_error ?_
    rw [hs]
    rfl
  · have hrow : m.stack.reverse = s.reverse ++ [count] := by rw [hs, List.reverse_cons]
    rcases hcount : Signature.count? count maxKeys with - | keyCount
    · simp only [hcount]
      refine withRow_of_error ?_
      simp [hrow, Positional.keyCount, Positional.require_of_le, hcount]
    · have hkeys : Positional.keyCount name m.stack.reverse =
          some (.ok keyCount, m.stack.reverse) := by
        simp [hrow, Positional.keyCount, Positional.require_of_le, hcount]
      rw [withRow_of_ok hkeys]
      simp only [hcount]
      rcases hops : m.countOps keyCount with e | counted
      · rfl
      · obtain ⟨-, rfl⟩ := countOps_eq_ok.1 hops
        exact onRow_eq (Positional.computes_checkMultisig hstart verify keyCount)

/-- Runs an opcode's own effect by position. Those that are left read no position of the stack. -/
def runBuiltinAt (m : Machine) (env : Env) (name : String) (offset : Nat) :
    Builtin → Option Outcome
  | .branch negated => m.branchAt name negated
  | .verify => m.onRow (Positional.verify name)
  | .toAltstack => m.toAltstackAt name
  | .shuffle op => m.onRow (Positional.shuffle op name)
  | .ifDup => m.onRow (Positional.ifDup name)
  | .depth => m.onRow (Positional.depth name)
  | .pick move => m.onRow (Positional.pick name move)
  | .size => m.onRow (Positional.size name)
  | .equal verify => m.onRow (Positional.equal name verify)
  | .unary op => m.onRow (Positional.unary op name)
  | .binary op => m.onRow (Positional.binary op name)
  | .numEqualVerify => m.onRow (Positional.numEqualVerify name)
  | .within => m.onRow (Positional.within name)
  | .shift left => m.onRow (Positional.shift name left)
  | .digest op => m.onRow (Positional.digest op name)
  | .concat => m.onRow (Positional.concat name)
  | .substring => m.onRow (Positional.substring name)
  | .keep left => m.onRow (Positional.keep name left)
  | .invert => m.onRow (Positional.invert name)
  | .bitwise op => m.onRow (Positional.bitwise op name)
  | .checkSig verify =>
    m.onRow (Positional.checkSig env.setting env.script m.codeStart name verify)
  | .checkMultisig verify => m.checkMultisigAt env name verify
  | b@(.number _) | b@.nop | b@.otherwise | b@.endBranch | b@.fail | b@.fromAltstack
  | b@.codeSeparator => some (m.runBuiltin env name offset b)

lemma runBuiltinAt_eq (hstart : m.codeStart ≤ env.script.bytes.length) (offset : Nat)
    (b : Builtin) : m.runBuiltinAt env name offset b = some (m.runBuiltin env name offset b) := by
  cases b with
  | branch negated => exact branchAt_eq m name negated
  | verify => exact onRow_eq Positional.computes_verify
  | toAltstack => exact toAltstackAt_eq m name
  | shuffle op => exact onRow_eq (Positional.computes_shuffle op)
  | ifDup => exact onRow_eq Positional.computes_ifDup
  | depth => exact onRow_eq Positional.computes_depth
  | pick move => exact onRow_eq (Positional.computes_pick move)
  | size => exact onRow_eq Positional.computes_size
  | equal verify => exact onRow_eq (Positional.computes_equal verify)
  | unary op => exact onRow_eq (Positional.computes_unary op)
  | binary op => exact onRow_eq (Positional.computes_binary op)
  | numEqualVerify => exact onRow_eq Positional.computes_numEqualVerify
  | within => exact onRow_eq Positional.computes_within
  | shift left => exact onRow_eq (Positional.computes_shift left)
  | digest op => exact onRow_eq (Positional.computes_digest op)
  | concat => exact onRow_eq Positional.computes_concat
  | substring => exact onRow_eq Positional.computes_substring
  | keep left => exact onRow_eq (Positional.computes_keep left)
  | invert => exact onRow_eq Positional.computes_invert
  | bitwise op => exact onRow_eq (Positional.computes_bitwise op)
  | checkSig verify => exact onRow_eq (Positional.computes_checkSig hstart verify)
  | checkMultisig verify => exact checkMultisigAt_eq hstart verify
  | number | nop | otherwise | endBranch | fail | fromAltstack | codeSeparator => rfl

/-- Runs a handler by position. What a function of the host does with the stacks is its own
affair. -/
def runHandlerAt (m : Machine) (env : Env) (op : Opcode) : Handler → Option Outcome
  | .named h => m.onRow (Positional.handler h env.setting (env.table.name op))
  | .host name f => some (m.runHandler env op (.host name f))

lemma runHandlerAt_eq (op : Opcode) (handler : Handler) :
    m.runHandlerAt env op handler = some (m.runHandler env op handler) := by
  cases handler with
  | named h => exact onRow_eq (Positional.computes_handler h env.setting _)
  | host name f => rfl

def runOpcodeAt (m : Machine) (env : Env) (op : Opcode) (offset : Nat) : Option Outcome :=
  let name := env.table.name op
  if env.table.isDisabled op then some (.error (.disabledOpcode name), m)
  else if op = Opcode.verIf ∨ op = Opcode.verNotIf then
    some (.error (.unsupportedOpcode name), m)
  else if !m.executing && !op.isConditional then some (.ok s!"{name} (not executed)", m)
  else
    match env.table.handler? op with
    | some handler => m.runHandlerAt env op handler
    | none =>
      match Builtin.ofOpcode? op with
      | some b => m.runBuiltinAt env name offset b
      | none => some (.error (.unsupportedOpcode name), m)

def executeAt (m : Machine) (env : Env) (i : Instruction) : Option Outcome :=
  match i.data? with
  | some data => some (m.push data)
  | none =>
    if Opcode.op16 < i.opcode then
      match m.countOps 1 with
      | .error e => some (.error e, m)
      | .ok m => m.runOpcodeAt env i.opcode i.offset
    else m.runOpcodeAt env i.opcode i.offset

/-- Runs one instruction by position and looks at the size of the stacks afterwards. -/
def executeCheckedAt (m : Machine) (env : Env) (i : Instruction) : Option Outcome :=
  (m.executeAt env i).map fun
    | (.error e, m) => (.error e, m)
    | (.ok log, m) =>
      if maxStackSize < m.size then (.error (.stackSizeExceeded m.size maxStackSize), m)
      else (.ok log, m)

lemma runOpcodeAt_eq (hstart : m.codeStart ≤ env.script.bytes.length) (op : Opcode)
    (offset : Nat) : m.runOpcodeAt env op offset = some (m.runOpcode env op offset) := by
  unfold runOpcodeAt runOpcode
  cases env.table.handler? op with
  | some handler => simp only [runHandlerAt_eq, apply_ite some]
  | none =>
    cases Builtin.ofOpcode? op with
    | some b => simp only [runBuiltinAt_eq hstart, apply_ite some]
    | none => simp only [apply_ite some]

lemma executeCheckedAt_eq (hstart : m.codeStart ≤ env.script.bytes.length) (i : Instruction) :
    m.executeCheckedAt env i = some (m.executeChecked env i) := by
  have hexecute : m.executeAt env i = some (m.execute env i) := by
    unfold executeAt execute
    cases i.data? with
    | some data => rfl
    | none =>
      by_cases hop : Opcode.op16 < i.opcode
      · simp only [if_pos hop]
        rcases hops : m.countOps 1 with e | counted
        · rfl
        · obtain ⟨-, rfl⟩ := countOps_eq_ok.1 hops
          refine runOpcodeAt_eq ?_ i.opcode i.offset
          exact hstart
      · simp only [if_neg hop]
        exact runOpcodeAt_eq hstart i.opcode i.offset
  rcases hrun : m.execute env i with ⟨e | log, m'⟩ <;>
    simp [executeCheckedAt, hexecute, executeChecked, hrun]

end Machine

/-! ### Steppers -/

namespace Stepper

variable {s : Stepper}

def stepAt (s : Stepper) : Option (StepOutcome × Stepper) :=
  match s.status with
  | .succeeded => some (.finished, s)
  | .failed e => some (.failed e, s)
  | .ready | .running =>
    match s.pending with
    | .error e => some (s.fail s.machine e)
    | .ok [] =>
      match s.machine.finish? with
      | some e => some (s.fail s.machine e)
      | none => some (.finished, { s with status := .succeeded })
    | .ok (i :: is) => (s.machine.executeCheckedAt s.env i).map fun
      | (.error e, m) => { s with pending := .ok is }.fail m e
      | (.ok log, m) =>
        (.step (m.stepAfter s.env i log),
          { s with pending := .ok is, machine := m, status := .running })

def take : Nat → Stepper → List StepOutcome × Stepper
  | 0, s => ([], s)
  | n + 1, s =>
    let rest := take n s.step.2
    (s.step.1 :: rest.1, rest.2)

def takeAt : Nat → Stepper → Option (List StepOutcome × Stepper)
  | 0, s => some ([], s)
  | n + 1, s => do
    let (outcome, s) ← s.stepAt
    let (rest, s) ← takeAt n s
    return (outcome :: rest, s)

/-- As long as a run goes on, the start of the script code and the instructions that are left lie
within the script. -/
structure Within (s : Stepper) : Prop where
  codeStart : s.isGoing = true → s.machine.codeStart ≤ s.env.script.bytes.length
  pending : ∀ is, s.pending = .ok is → ∀ i ∈ is, i.offset < s.env.script.bytes.length

lemma Within.stepAt (h : s.Within) : s.stepAt = some s.step := by
  have hstart := h.codeStart
  unfold isGoing at hstart
  unfold Stepper.stepAt step
  cases hstatus : s.status with
  | succeeded => rfl
  | failed e => rfl
  | ready | running =>
    simp only [hstatus, forall_const] at hstart ⊢
    rcases s.pending with e | - | ⟨i, is⟩
    · rfl
    · cases s.machine.finish? <;> rfl
    · rcases hrun : s.machine.executeChecked s.env i with ⟨e | log, m⟩ <;>
        simp [Machine.executeCheckedAt_eq hstart, hrun]

lemma start_within (env : Env) (stack : Stack) : (start env stack).Within := by
  refine ⟨fun _ => Nat.zero_le _, fun is his i hi => ?_⟩
  have hcut : (env.script.bytes.drop i.offset).take i.size = i.encode :=
    ((Script.tiles_of_instructionsFrom his).slice hi).2
  have hpos : 0 < ((env.script.bytes.drop i.offset).take i.size).length := by
    rw [hcut, Instruction.length_encode]
    exact i.size_pos
  rw [List.length_take, List.length_drop] at hpos
  change i.offset < env.script.bytes.length
  omega

/-- **A step** that the run goes on after leaves everything within the script. -/
lemma Within.step (h : s.Within) : s.step.2.Within := by
  rcases s.step_cases with ⟨-, hended, hgoes⟩ | ⟨i, is, log, m, hpending, hrun, hstep⟩
  · refine ⟨fun hgoing => ?_, fun js hjs j hj => ?_⟩
    · rw [hended] at hgoing
      cases hgoing
    · obtain ⟨is, his, hsub⟩ := hgoes.pending js hjs
      rw [hgoes.env]
      exact h.pending is his j (hsub hj)
  · have hi : i.offset < s.env.script.bytes.length := h.pending _ hpending i List.mem_cons_self
    have hgoing : s.isGoing = true := by
      by_contra hended
      have hsteps := (step_of_not_going (Bool.eq_false_iff.2 hended)).1
      rw [hstep] at hsteps
      cases hsteps
    have hstart := h.codeStart hgoing
    have hcode := Machine.codeStart_after (Machine.after_eq_ok.2 ⟨log, hrun⟩)
    rw [hstep]
    refine ⟨fun _ => ?_, fun js hjs j hj => ?_⟩
    · change m.codeStart ≤ s.env.script.bytes.length
      rw [hcode]
      split
      next hseparates =>
        rw [Machine.size_of_separates hseparates]
        exact hi
      next => exact hstart
    · cases hjs
      exact h.pending _ hpending j (List.mem_cons_of_mem i hj)

lemma Within.takeAt (h : s.Within) (n : Nat) : s.takeAt n = some (s.take n) := by
  induction n generalizing s with
  | zero => rfl
  | succ n ih => simp [Stepper.takeAt, take, h.stepAt, ih h.step]

/-- **No step goes out of range.** By positions, where a look, a part, a difference or a quotient
out of range leaves a run without any result, any number of steps has the result that it has
without positions; what an opcode refuses is a fault in that result. -/
theorem takeAt_start (env : Env) (stack : Stack) (n : Nat) :
    (start env stack).takeAt n = some ((start env stack).take n) :=
  (start_within env stack).takeAt n

end Stepper

end CoinScript
