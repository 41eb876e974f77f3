import CoinScript.Record.Edit
import CoinScript.Record.Wire

/-!
Transactions: records whose inputs, outputs and standard fields have accessors.

The fields a network adds travel with the record untouched. The vectors of inputs and outputs
are found by what they hold, not by their names.
-/

namespace CoinScript

/-- A record of the kind of transactions. -/
structure Transaction where
  record : Record
  deriving DecidableEq

namespace Transaction

open FieldName

/-- The sequence of an input that is final. -/
def finalSequence : Nat := 0xffffffff

def new (set : SchemaSet) : Transaction :=
  ⟨Record.new set .transaction⟩

/-- A record as a transaction, if it is one. -/
def ofRecord (r : Record) : Except Fault Transaction :=
  if r.kind = .transaction then .ok ⟨r⟩ else .error (.schema (.notTransaction r.kind))

def deserialize (set : SchemaSet) (b : Bytes) : Except Fault Transaction :=
  return ⟨← Record.deserialize set .transaction b⟩

def serialize (tx : Transaction) : Bytes := tx.record.serialize

/-- The name of a transaction: the double digest of its bytes. -/
def txid (tx : Transaction) : Hash256 := doubleSha256 tx.serialize

/-! ### Inputs and outputs -/

/-- The name of the vector of a kind. -/
def vectorName (tx : Transaction) (kind : EntityKind) : Except Fault String :=
  match tx.record.schema.vectorField? kind with
  | some name => .ok name
  | none => .error (.schema (.noVector kind))

/-- The records of a vector; none where the vector is absent. -/
def vector (tx : Transaction) (kind : EntityKind) : List Record :=
  ((tx.record.schema.vectorField? kind).bind tx.record.records?).getD []

def inputs (tx : Transaction) : List Record := tx.vector .txIn

def outputs (tx : Transaction) : List Record := tx.vector .txOut

def editVector (tx : Transaction) (kind : EntityKind)
    (edit : List Record → Except Fault (List Record)) : Except Fault Transaction := do
  let name ← tx.vectorName kind
  match tx.record.vector? name with
  | some (rs, put) => return ⟨put (← edit rs)⟩
  | none => throw (.schema (.absent name))

def editInputs (tx : Transaction) (edit : List Record → Except Fault (List Record)) :
    Except Fault Transaction :=
  tx.editVector .txIn edit

def editOutputs (tx : Transaction) (edit : List Record → Except Fault (List Record)) :
    Except Fault Transaction :=
  tx.editVector .txOut edit

def newInput (tx : Transaction) : Record := Record.new tx.record.schemas .txIn

def newOutput (tx : Transaction) : Record := Record.new tx.record.schemas .txOut

def editInput (tx : Transaction) (index : Nat) (edit : Record → Except Fault Record) :
    Except Fault Transaction :=
  tx.editInputs fun rs =>
    match rs[index]? with
    | some r => return rs.set index (← edit r)
    | none => throw (.inputOutOfRange index rs.length)

/-- Takes an input out, if it is there; the last input takes its place. -/
def swapRemoveInput (tx : Transaction) (index : Nat) : Except Fault Transaction :=
  tx.editInputs fun rs =>
    match rs.getLast? with
    | some last => return if index < rs.length then (rs.set index last).dropLast else rs
    | none => return rs

def addInput (tx : Transaction) (prevHash : Hash256) (prevIndex : Nat) (script : Script)
    (seq : Nat) : Except Fault Transaction := do
  let input ←
    match tx.newInput.nested? prevOut with
    | some (outpoint, put) => do
      let outpoint ← outpoint.set hash (.hash prevHash)
      let outpoint ← outpoint.set index (.uint prevIndex)
      pure (put outpoint)
    | none => pure tx.newInput
  let input ← input.set scriptSig (.script script)
  let input ← input.set sequence (.uint seq)
  tx.editInputs fun rs => return rs ++ [input]

def addOutput (tx : Transaction) (amount : Int) (script : Script) : Except Fault Transaction := do
  let output ← tx.newOutput.set value (.int amount)
  let output ← output.set scriptPubKey (.script script)
  tx.editOutputs fun rs => return rs ++ [output]

def input (tx : Transaction) (index : Nat) : Except Fault Record :=
  match tx.inputs[index]? with
  | some r => .ok r
  | none => .error (.inputOutOfRange index tx.inputs.length)

def output (tx : Transaction) (index : Nat) : Except Fault Record :=
  match tx.outputs[index]? with
  | some r => .ok r
  | none => .error (.outputOutOfRange index tx.outputs.length)

/-! ### Fields -/

def required {α : Type} (name : String) : Option α → Except Fault α
  | some a => .ok a
  | none => .error (.schema (.missing name))

/-- The version, as a signed number of eight bytes; zero where there is none. -/
def version (tx : Transaction) : Int :=
  ((tx.record.int? FieldName.version).getD 0).bmod 0x10000000000000000

def setVersion (tx : Transaction) (v : Int) : Except Fault Transaction :=
  return ⟨← tx.record.setInt FieldName.version v⟩

/-- The low four bytes of the lock time; zero where there is none. -/
def lockTime (tx : Transaction) : Nat :=
  (((tx.record.int? FieldName.lockTime).getD 0) % 0x100000000).toNat

def setLockTime (tx : Transaction) (v : Nat) : Except Fault Transaction :=
  return ⟨← tx.record.setInt FieldName.lockTime v⟩

def inputScript (tx : Transaction) (index : Nat) : Except Fault Script := do
  required scriptSig ((← tx.input index).script? scriptSig)

def setInputScript (tx : Transaction) (index : Nat) (s : Script) : Except Fault Transaction :=
  tx.editInput index (·.set scriptSig (.script s))

/-- An integer that must fit four unsigned bytes. -/
def word (v : Int) (fault : EncodingFault) : Except Fault Nat :=
  if 0 ≤ v ∧ v < 0x100000000 then .ok v.toNat else .error (.encoding fault)

/-- The sequence of an input, which must fit four bytes. -/
def inputSequence (tx : Transaction) (index : Nat) : Except Fault Nat := do
  let v ← required sequence ((← tx.input index).int? sequence)
  word v (.sequenceTooWide v)

/-- The transaction and the output index that an input spends. -/
def inputPrevout (tx : Transaction) (i : Nat) : Except Fault (Hash256 × Nat) := do
  let outpoint ← required prevOut ((← tx.input i).record? prevOut)
  match Hash256.ofBytes? (← required hash (outpoint.bytes? hash)) with
  | none => throw (.encoding (.notHash hash))
  | some h =>
    let v ← required index (outpoint.int? index)
    return (h, ← word v (.outpointIndexTooWide v))

/-- The amount of an output, as a signed number of eight bytes. -/
def outputValue (tx : Transaction) (index : Nat) : Except Fault Int := do
  let v ← required value ((← tx.output index).int? value)
  return v.bmod 0x10000000000000000

def outputScript (tx : Transaction) (index : Nat) : Except Fault Script := do
  required scriptPubKey ((← tx.output index).script? scriptPubKey)

/-- Whether the only input spends nothing: the zero hash and the largest index. -/
def isCoinbase (tx : Transaction) : Bool :=
  tx.inputs.length == 1 &&
    match tx.inputPrevout 0 with
    | .ok (h, i) => h == Hash256.zero && i == 0xffffffff
    | .error _ => false

end Transaction

namespace Read

def transaction (set : SchemaSet) : Read Transaction :=
  return ⟨← record set .transaction⟩

end Read

end CoinScript
