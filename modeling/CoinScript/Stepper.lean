import CoinScript.Machine

/-!
Running a script step by step, or to its end.

A stepper remembers the instructions that are left and how the run stands. Once it has
finished or failed it stays so, and a fault is reported once where steps are drawn one by one.
-/

namespace CoinScript

/-- How a run stands. -/
inductive Status where
  | ready
  | running
  | succeeded
  | failed (fault : Fault)

/-- A run that can be taken further. -/
structure Stepper where
  env : Env
  /-- The instructions that are left, or why the script has none. -/
  pending : Except Fault (List Instruction)
  machine : Machine
  status : Status := .ready
  reported : Bool := false

/-- What came of an attempt to run one instruction. -/
inductive StepOutcome where
  | step (s : Step)
  | finished
  | failed (fault : Fault)

namespace Stepper

def start (env : Env) (stack : Stack) : Stepper where
  env := env
  pending := env.script.instructions
  machine := { stack := stack }

def fail (s : Stepper) (m : Machine) (e : Fault) : StepOutcome × Stepper :=
  (.failed e, { s with machine := m, status := .failed e })

def step (s : Stepper) : StepOutcome × Stepper :=
  match s.status with
  | .succeeded => (.finished, s)
  | .failed e => (.failed e, s)
  | .ready | .running =>
    match s.pending with
    | .error e => s.fail s.machine e
    | .ok [] =>
      match s.machine.finish? with
      | some e => s.fail s.machine e
      | none => (.finished, { s with status := .succeeded })
    | .ok (i :: is) =>
      match s.machine.executeChecked s.env i with
      | (.error e, m) => { s with pending := .ok is }.fail m e
      | (.ok log, m) =>
        (.step (m.stepAfter s.env i log),
          { s with pending := .ok is, machine := m, status := .running })

/-- Draws the next step, or the fault the first time it is met. -/
def next (s : Stepper) : Option (Except Fault Step) × Stepper :=
  match s.step with
  | (.step x, s) => (some (.ok x), s)
  | (.finished, s) => (none, s)
  | (.failed e, s) =>
    if s.reported then (none, s) else (some (.error e), { s with reported := true })

/-- How a stepper stands at the end of a run. -/
def settle (s : Stepper) (r : Run) : Stepper :=
  { s with
    pending := .ok []
    machine := r.machine
    status := match r.fault? with
      | some e => .failed e
      | none => .succeeded }

/-- Runs to the end: the steps, and the fault if there is one. -/
def run (s : Stepper) : (List Step × Option Fault) × Stepper :=
  match s.status with
  | .succeeded => (([], none), s)
  | .failed e => (([], some e), s)
  | .ready | .running =>
    match s.pending with
    | .error e => (([], some e), { s with status := .failed e })
    | .ok is =>
      let r := Machine.run s.env is s.machine
      ((r.steps, r.fault?), s.settle r)

end Stepper

end CoinScript
