import CoinScript.Machine.Effect
import CoinScript.SignatureHash
import CoinScript.Spend

/-!
Opcodes that check signatures.

A single check takes a key and a signature. A multiple check takes keys and signatures behind
their numbers, and one item more that history left there; it tries keys and signatures from
the top and spends each key once.
-/

namespace CoinScript

def maxKeys : Nat := 20

namespace Signature

/-- Whether the signatures match keys in order. Each key is tried once, against the first
signature that is not yet matched; too many signatures for the keys left is a failure. -/
def matchAll (check : Bytes → Bytes → Except Fault Bool) :
    (signatures keys : List Bytes) → Except Fault Bool
  | [], _ => .ok true
  | _ :: _, [] => .ok false
  | sig :: sigs, key :: keys => do
    let left := if ← check sig key then sigs else sig :: sigs
    if keys.length < left.length then return false
    matchAll check left keys

/-- The script code without the pushes of some signatures. -/
def strip (code : Script) (signatures : List Bytes) : Except Fault Script :=
  signatures.foldlM Script.removePush code

def count? (b : Bytes) (most : Nat) : Option Nat :=
  match Number.decodeBounded? b with
  | some n => if 0 ≤ n ∧ n ≤ most then some n.toNat else none
  | none => none

def word (valid : Bool) : String := if valid then "valid" else "invalid"

end Signature

/-- What a multiple check takes off the stack, keys and signatures from the top. -/
structure MultisigOperands where
  keys : List Bytes
  signatures : List Bytes
  dummy : Bytes
  below : Stack

/-- Takes apart the stack below the number of keys. -/
def MultisigOperands.take (name : String) (keyCount : Nat) (s : Stack) :
    Except Fault MultisigOperands :=
  match s.drop keyCount with
  | [] => .error (.missingOperands name (2 + keyCount))
  | count :: rest =>
    match Signature.count? count keyCount with
    | none => .error (.stackOperation (.badCount name false))
    | some sigCount =>
      match rest.drop sigCount with
      | [] => .error (.missingOperands name (3 + keyCount + sigCount))
      | dummy :: below => .ok ⟨s.take keyCount, rest.take sigCount, dummy, below⟩

namespace Effect

/-- Checks one signature against one key. -/
def checkSig (setting : Setting) (code : Script) (name : String) (verify : Bool) : Effect :=
  two name fun key sig =>
    match setting.transaction name with
    | .error e => (.error e, [key, sig])
    | .ok tx =>
      match do checkSignature sig key (← code.removePush sig) tx setting.input with
      | .error e => (.error e, [])
      | .ok valid =>
        Reply.verdict name verify valid
          (s!"{name}: signature " ++ Signature.word valid)

/-- The outcome of a multiple check. -/
def multisigValid (setting : Setting) (code : Script) (name : String) (ops : MultisigOperands) :
    Except Fault Bool := do
  let tx ← setting.transaction name
  let code ← Signature.strip code ops.signatures
  Signature.matchAll (fun sig key => checkSignature sig key code tx setting.input)
    ops.signatures ops.keys

/-- Checks signatures against keys, `keyCount` of which follow their number on the stack. -/
def checkMultisig (setting : Setting) (code : Script) (name : String) (verify : Bool)
    (keyCount : Nat) : Effect := fun s =>
  match MultisigOperands.take name keyCount s.tail with
  | .error e => (.error e, s)
  | .ok ops =>
    match multisigValid setting code name ops with
    | .error e => (.error e, s)
    | .ok valid =>
      if setting.flags.has Flags.nullDummy && !ops.dummy.isEmpty then
        (.error (.stackOperation (.dummyNotEmpty name)), ops.below)
      else
        let reply := Reply.verdict name verify valid
          (s!"{name}: {ops.signatures.length} of {ops.keys.length} signature(s) "
            ++ Signature.word valid)
        (reply.1, reply.2 ++ ops.below)

end Effect

end CoinScript
