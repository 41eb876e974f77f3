import CoinScript.Machine.Builtin
import CoinScript.Machine.Signature
import CoinScript.Opcode.Table
import CoinScript.TimeLock

/-!
The machine that runs scripts, one instruction at a time.

A machine is two stacks, the open conditionals, the number of operations counted and the place
where the signed part of the script starts. An instruction runs only if all open conditionals
hold, but the limits, the disabled opcodes and the conditionals themselves are looked at in
skipped branches too.
-/

namespace CoinScript

/-- The most operations above the pushes that a script may have. -/
def maxOps : Nat := 201

/-- The most items that both stacks together may have after an instruction. -/
def maxStackSize : Nat := 1000

/-- Which script of a verification is run. -/
inductive Phase where
  | standalone
  | unlocking
  | locking
  | redeem
  deriving DecidableEq

/-- All that an instruction may look at and does not change. -/
structure Env where
  table : OpcodeTable
  setting : Setting
  phase : Phase
  script : Script

/-- The state of a run between two instructions. -/
structure Machine where
  /-- The top comes first. -/
  stack : Stack := []
  altstack : Stack := []
  /-- Whether each open conditional holds, the innermost first. -/
  conditions : List Bool := []
  opCount : Nat := 0
  codeStart : Nat := 0

/-- What an instruction did: a log line or a fault, and the machine as it left it. -/
abbrev Outcome := Except Fault String × Machine

namespace Machine

/-- Whether instructions run, rather than being skipped. -/
def executing (m : Machine) : Bool := m.conditions.all id

def size (m : Machine) : Nat := m.stack.length + m.altstack.length

def onStack (m : Machine) (e : Effect) : Outcome :=
  ((e m.stack).1, { m with stack := (e m.stack).2 })

/-- The part of the script that signatures sign. -/
def code (m : Machine) (env : Env) : Script := ⟨env.script.bytes.drop m.codeStart⟩

def countOps (m : Machine) (n : Nat) : Except Fault Machine :=
  if maxOps < m.opCount + n then .error (.opCountExceeded maxOps)
  else .ok { m with opCount := m.opCount + n }

/-! ### Conditionals -/

/-- Opens a conditional. In a skipped branch it does not look at the stack. -/
def branch (m : Machine) (name : String) (negated : Bool) : Outcome :=
  if m.executing then
    match m.stack with
    | [] => (.error (.missingOperands name 1), m)
    | a :: s =>
      let holds := Number.truthy a != negated
      (.ok (s!"{name}: " ++ (if holds then "executing" else "skipping") ++ " branch"),
        { m with stack := s, conditions := holds :: m.conditions })
  else (.ok s!"{name} (inside skipped branch)", { m with conditions := false :: m.conditions })

def otherwise (m : Machine) (name : String) : Outcome :=
  match m.conditions with
  | [] => (.error (.stackOperation (.unmatchedConditional name)), m)
  | c :: cs => (.ok s!"{name}: branch toggled", { m with conditions := (!c) :: cs })

def endBranch (m : Machine) (name : String) : Outcome :=
  match m.conditions with
  | [] => (.error (.stackOperation (.unmatchedConditional name)), m)
  | _ :: cs => (.ok s!"{name}: conditional closed", { m with conditions := cs })

/-! ### The other stack -/

def toAltstack (m : Machine) (name : String) : Outcome :=
  match m.stack with
  | [] => (.error (.missingOperands name 1), m)
  | a :: s =>
    (.ok s!"{name}: moved item to altstack", { m with stack := s, altstack := a :: m.altstack })

def fromAltstack (m : Machine) (name : String) : Outcome :=
  match m.altstack with
  | [] => (.error (.stackOperation (.emptyAltstack name)), m)
  | a :: s =>
    (.ok s!"{name}: moved item from altstack", { m with stack := a :: m.stack, altstack := s })

/-! ### Instructions -/

/-- Checks signatures against keys. Each key counts as an operation. -/
def checkMultisig (m : Machine) (env : Env) (name : String) (verify : Bool) : Outcome :=
  match m.stack with
  | [] => (.error (.missingOperands name 1), m)
  | count :: _ =>
    match Signature.count? count maxKeys with
    | none => (.error (.stackOperation (.badCount name true)), m)
    | some keyCount =>
      match m.countOps keyCount with
      | .error e => (.error e, m)
      | .ok m =>
        m.onStack (Effect.checkMultisig env.setting (m.code env) name verify keyCount)

/-- Fails unless the top item is true. -/
def verifyEffect (name : String) : Effect :=
  Effect.one name fun a => Reply.verdict name true (Number.truthy a) ""

/-- Runs an opcode's own effect. The opcode stands at `offset`. -/
def runBuiltin (m : Machine) (env : Env) (name : String) (offset : Nat) : Builtin → Outcome
  | .number n => (.ok s!"Pushed {n}", { m with stack := Number.encode n :: m.stack })
  | .nop => (.ok s!"{name}: no operation", m)
  | .branch negated => m.branch name negated
  | .otherwise => m.otherwise name
  | .endBranch => m.endBranch name
  | .verify => m.onStack (verifyEffect name)
  | .fail => (.error .opReturn, m)
  | .toAltstack => m.toAltstack name
  | .fromAltstack => m.fromAltstack name
  | .shuffle op => m.onStack (op.effect name)
  | .ifDup => m.onStack (Effect.ifDup name)
  | .depth => m.onStack (Effect.depth name)
  | .pick move => m.onStack (Effect.pick name move)
  | .size => m.onStack (Effect.size name)
  | .equal verify => m.onStack (Effect.equal name verify)
  | .unary op => m.onStack (op.effect name)
  | .binary op => m.onStack (op.effect name)
  | .numEqualVerify => m.onStack (Effect.numEqualVerify name)
  | .within => m.onStack (Effect.within name)
  | .shift left => m.onStack (Effect.shift name left)
  | .digest op => m.onStack (op.effect name)
  | .concat => m.onStack (Effect.concat name)
  | .substring => m.onStack (Effect.substring name)
  | .keep left => m.onStack (Effect.keep name left)
  | .invert => m.onStack (Effect.invert name)
  | .bitwise op => m.onStack (op.effect name)
  | .codeSeparator =>
    (.ok s!"{name}: script code now starts at byte {offset + 1}",
      { m with codeStart := offset + 1 })
  | .checkSig verify => m.onStack (Effect.checkSig env.setting (m.code env) name verify)
  | .checkMultisig verify => m.checkMultisig env name verify

def push (m : Machine) (data : Bytes) : Outcome :=
  if maxItemSize < data.length then (.error (.pushSize data.length maxItemSize), m)
  else if m.executing then (.ok s!"Pushed {shownBytes data}", { m with stack := data :: m.stack })
  else (.ok s!"{data.length} bytes (not executed)", m)

/-- What a handler does in place of an opcode's own effect. Only a function of the host may change
the stacks, and nothing else of the machine. -/
def runHandler (m : Machine) (env : Env) (op : Opcode) : Handler → Outcome
  | .named h => (h.run env.setting (env.table.name op) m.stack, m)
  | .host _ f =>
    let (answer, stack, altstack) :=
      f ⟨op, env.table.name op, env.setting, m.stack, m.altstack⟩
    (answer, { m with stack := stack, altstack := altstack })

/-- What an opcode does once the limits have been looked at: nothing in a skipped branch, or
else what the network's handler or the opcode's own effect does. -/
def runOpcode (m : Machine) (env : Env) (op : Opcode) (offset : Nat) : Outcome :=
  let name := env.table.name op
  if env.table.isDisabled op then (.error (.disabledOpcode name), m)
  else if op = Opcode.verIf ∨ op = Opcode.verNotIf then (.error (.unsupportedOpcode name), m)
  else if !m.executing && !op.isConditional then (.ok s!"{name} (not executed)", m)
  else
    match env.table.handler? op with
    | some handler => m.runHandler env op handler
    | none =>
      match Builtin.ofOpcode? op with
      | some b => m.runBuiltin env name offset b
      | none => (.error (.unsupportedOpcode name), m)

def execute (m : Machine) (env : Env) (i : Instruction) : Outcome :=
  match i.data? with
  | some data => m.push data
  | none =>
    if Opcode.op16 < i.opcode then
      match m.countOps 1 with
      | .error e => (.error e, m)
      | .ok m => m.runOpcode env i.opcode i.offset
    else m.runOpcode env i.opcode i.offset

/-- Runs one instruction and looks at the size of the stacks afterwards. -/
def executeChecked (m : Machine) (env : Env) (i : Instruction) : Outcome :=
  match m.execute env i with
  | (.error e, m) => (.error e, m)
  | (.ok log, m) =>
    if maxStackSize < m.size then (.error (.stackSizeExceeded m.size maxStackSize), m)
    else (.ok log, m)

end Machine

/-- What is seen after an instruction. -/
structure Step where
  opcode : Opcode
  offset : Nat
  log : String
  stack : Stack
  altstack : Stack
  phase : Phase

/-- What is left of a run when it ends. -/
structure Run where
  steps : List Step
  fault? : Option Fault
  machine : Machine

namespace Machine

def stepAfter (m : Machine) (env : Env) (i : Instruction) (log : String) : Step :=
  ⟨i.opcode, i.offset, log, m.stack, m.altstack, env.phase⟩

/-- How a script without instructions left ends: well, unless a conditional is open. -/
def finish? (m : Machine) : Option Fault :=
  if m.conditions.isEmpty then none else some .unterminatedConditional

/-- Runs instructions until one fails or none is left. -/
def run (env : Env) : List Instruction → Machine → Run
  | [], m => ⟨[], m.finish?, m⟩
  | i :: is, m =>
    match m.executeChecked env i with
    | (.error e, m) => ⟨[], some e, m⟩
    | (.ok log, m) =>
      let r := run env is m
      { r with steps := m.stepAfter env i log :: r.steps }

end Machine

end CoinScript
