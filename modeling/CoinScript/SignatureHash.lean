import CoinScript.Ecdsa
import CoinScript.Transaction

/-!
What a signature signs.

A signature hash is the double digest of a copy of the transaction, in which a type decides
what is kept: all outputs, none or one; all inputs or one. Indices out of range are faults and
never give a digest.
-/

namespace CoinScript

/-- The type of a signature hash: any four bytes, of which the low five bits are the base mode
and bit seven keeps other inputs out. -/
structure SighashType where
  value : UInt32
  deriving DecidableEq

namespace SighashType

def all : SighashType := ⟨0x01⟩
def none : SighashType := ⟨0x02⟩
def single : SighashType := ⟨0x03⟩

def withAnyoneCanPay (t : SighashType) : SighashType := ⟨t.value ||| 0x80⟩

def anyoneCanPay (t : SighashType) : Bool := t.value &&& 0x80 != 0

/-- The low five bits of a type. -/
def base (t : SighashType) : UInt32 := t.value &&& 0x1f

def isNone (t : SighashType) : Bool := t.base == 0x02

def isSingle (t : SighashType) : Bool := t.base == 0x03

end SighashType

namespace SignatureHash

open FieldName

/-- Empties every input's script, then puts the script code into the signed input. -/
def blankScripts (code : Script) (index : Nat) (inputs : List Record) :
    Except Fault (List Record) := do
  let blank ← inputs.mapM (·.set scriptSig (.script Script.empty))
  match blank[index]? with
  | some signed => return blank.set index (← signed.set scriptSig (.script code))
  | none => return blank

/-- Sets the sequences of all inputs but one to zero. -/
def zeroSequences (index : Nat) (inputs : List Record) : Except Fault (List Record) :=
  inputs.zipIdx.mapM fun (r, i) => if i = index then pure r else r.set sequence (.uint 0)

/-- Makes an output null: the value minus one and an empty script. -/
def nullOutput (r : Record) : Except Fault Record := do
  (← r.set value (.int (-1))).set scriptPubKey (.script Script.empty)

/-- The outputs up to one, those before it null. -/
def onlyOutput (index : Nat) (outputs : List Record) : Except Fault (List Record) :=
  (outputs.take (index + 1)).zipIdx.mapM fun (r, i) => if i < index then nullOutput r else pure r

def signedCopy (code : Script) (tx : Transaction) (index : Nat) (t : SighashType) :
    Except Fault Transaction := do
  if tx.inputs.length ≤ index then throw (.inputOutOfRange index tx.inputs.length)
  if t.isSingle ∧ tx.outputs.length ≤ index then throw (.outputOutOfRange index tx.outputs.length)
  let code ← code.removeOpcode Opcode.codeSeparator
  let copy ← tx.editInputs (blankScripts code index)
  let copy ←
    if t.isNone then do
      (← copy.editOutputs fun _ => pure []).editInputs (zeroSequences index)
    else if t.isSingle then do
      (← copy.editOutputs (onlyOutput index)).editInputs (zeroSequences index)
    else pure copy
  if t.anyoneCanPay then copy.editInputs fun rs => pure rs[index]?.toList
  else return copy

/-- The bytes whose double digest is signed: the copy and the type. -/
def preimage (code : Script) (tx : Transaction) (index : Nat) (t : SighashType) :
    Except Fault Bytes := do
  let copy ← signedCopy code tx index t
  return copy.serialize ++ Bytes.ofNatLE 4 t.value.toNat

/-- The signature hash: the double digest of the preimage. -/
def digest (code : Script) (tx : Transaction) (index : Nat) (t : SighashType) :
    Except Fault Hash256 :=
  return doubleSha256 (← preimage code tx index t)

end SignatureHash

/-- Signs a digest: the encoded signature and the low byte of the type. -/
def signDigest (secret : Bytes) (digest : Hash256) (t : SighashType) : Except Fault Bytes := do
  let d ← Ecdsa.SecretKey.ofBytes secret
  return Ecdsa.Der.encode (Ecdsa.sign d digest) ++ [t.value.toUInt8]

def publicKey (secret : Bytes) : Except Fault Bytes :=
  return (← Ecdsa.SecretKey.ofBytes secret).publicKey.compressed

/-- Whether a signature with its type byte signs an input under a key. A malformed key or
signature signs nothing; a signature hash that does not exist is a fault. -/
def checkSignature (signature key : Bytes) (code : Script) (tx : Transaction) (index : Nat) :
    Except Fault Bool :=
  match signature.getLast?, Ecdsa.PublicKey.ofBytes? key,
      Ecdsa.Der.decodeLax? signature.dropLast with
  | some type, some key, some sig => do
    let digest ← SignatureHash.digest code tx index ⟨type.toUInt32⟩
    return Ecdsa.verify key digest sig.lower
  | _, _, _ => return false

end CoinScript
