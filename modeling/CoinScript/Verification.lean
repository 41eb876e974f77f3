import CoinScript.Stepper

/-!
Evaluating a script on its own, and verifying that an input may spend an output.

Verification runs the unlocking script from an empty stack and the locking script from what it
leaves. If the locking script asks for a script hash, the item on top of what the unlocking
script left is run as a script from the rest. Each script but the first must leave a true
item on top.
-/

namespace CoinScript

/-- What an evaluation or a verification came to. -/
structure Execution where
  steps : List Step := []
  fault? : Option Fault := none
  /-- The unlocking and the locking script did well. Never so for an evaluation. -/
  verified : Bool := false

/-- Whether there is a top item and it is true. -/
def Stack.topIsTrue : Stack → Bool
  | [] => false
  | a :: _ => Number.truthy a

namespace Execution

def finalStack? (x : Execution) : Option Stack :=
  x.steps.getLast?.map (·.stack)

def passed (x : Execution) : Bool :=
  x.fault?.isNone && x.finalStack?.any Stack.topIsTrue

/-- Passed and verified. -/
def valid (x : Execution) : Bool := x.passed && x.verified

def add (x : Execution) (steps : List Step) : Execution :=
  { x with steps := x.steps ++ steps }

def fail (x : Execution) (e : Fault) : Execution :=
  { x with fault? := some e }

end Execution

def runScript (env : Env) (stack : Stack) : Run :=
  match env.script.instructions with
  | .error e => ⟨[], some e, { stack := stack }⟩
  | .ok is => Machine.run env is { stack := stack }

/-- Runs a script on its own, for a spend or without any. -/
def evaluate (table : OpcodeTable) (script : Script) (spend? : Option Spend) : Execution :=
  let setting := match spend? with
    | some spend => spend.setting
    | none => {}
  let r := runScript ⟨table, setting, .standalone, script⟩ []
  { steps := r.steps, fault? := r.fault? }

/-- Runs the script that a script hash lock asked for. `stack` is what the unlocking script
left. -/
def verifyRedeem (table : OpcodeTable) (unlocking : Script) (spend : Spend) (stack : Stack)
    (x : Execution) : Execution :=
  if !unlocking.isPushOnly then x.fail (.verifyFailed .notPushOnly)
  else
    match stack with
    | [] => x.fail (.verifyFailed .noRedeemScript)
    | redeem :: below =>
      let r := runScript ⟨table, spend.setting, .redeem, ⟨redeem⟩⟩ below
      let x := x.add r.steps
      match r.fault? with
      | some e => x.fail e
      | none => if r.machine.stack.topIsTrue then x else x.fail (.verifyFailed .redeemScript)

def verifyLocking (table : OpcodeTable) (unlocking locking : Script) (spend : Spend)
    (stack : Stack) (x : Execution) : Execution :=
  let r := runScript ⟨table, spend.setting, .locking, locking⟩ stack
  let x := x.add r.steps
  match r.fault? with
  | some e => x.fail e
  | none =>
    if !r.machine.stack.topIsTrue then x.fail (.verifyFailed .lockingScript)
    else
      let x := { x with verified := true }
      if spend.flags.has Flags.payToScriptHash && locking.isPayToScriptHash then
        verifyRedeem table unlocking spend stack x
      else x

/-- Verifies an unlocking script against a locking script. -/
def verifyScripts (table : OpcodeTable) (unlocking locking : Script) (spend : Spend) :
    Execution :=
  let r := runScript ⟨table, spend.setting, .unlocking, unlocking⟩ []
  let x : Execution := { steps := r.steps }
  match r.fault? with
  | some e => x.fail e
  | none => verifyLocking table unlocking locking spend r.machine.stack x

/-- Verifies the script of the spending input against a locking script. -/
def verify (table : OpcodeTable) (locking : Script) (spend : Spend) : Execution :=
  match spend.tx.inputScript spend.input with
  | .ok unlocking => verifyScripts table unlocking locking spend
  | .error e => { fault? := some e }

end CoinScript
