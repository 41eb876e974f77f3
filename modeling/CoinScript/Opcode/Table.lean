import CoinScript.Opcode.Handler
import CoinScript.Opcode.Names

/-!
The opcode table of a network: mnemonics in both directions, the disabled opcodes and the
registered handlers.

Both directions are association lists in which the first entry wins, so that giving a name
puts an entry in front and leaves older names readable. An opcode without a name is called
`OP_UNKNOWN` and its number.
-/

namespace CoinScript

/-- Mnemonics, disabled opcodes and handlers. -/
structure OpcodeTable where
  names : List (Opcode × String)
  values : List (String × Opcode)
  disabled : List Opcode
  overrides : List (Opcode × Handler)

def upperCase (s : String) : String :=
  String.ofList (s.toList.map Char.toUpper)

namespace Mnemonic

def lead : List Char := ['O', 'P', '_']

/-- Whether a text in upper case starts with `OP_`. -/
def isLed (upper : String) : Bool :=
  lead.isPrefixOf upper.toList

/-- Upper case, with `OP_` in front. -/
def normalize (s : String) : String :=
  let upper := upperCase s
  if isLed upper then upper else "OP_" ++ upper

/-- What every unnamed opcode's name starts with. -/
def unknownLead : String := "OP_UNKNOWN"

/-- The number that digits denote, an optional plus sign before them, when it is a byte. -/
def byte? (cs : List Char) : Option Opcode :=
  let digits := match cs with
    | '+' :: rest => rest
    | _ => cs
  if digits ≠ [] ∧ digits.all Char.isDigit then
    let n := digits.foldl (fun n c => 10 * n + (c.toNat - 48)) 0
    if n < 256 then some (UInt8.ofNat n) else none
  else none

/-- The opcode that an unnamed opcode's name stands for. -/
def unknown? (full : String) : Option Opcode :=
  if unknownLead.toList.isPrefixOf full.toList then
    byte? (full.toList.drop unknownLead.length)
  else none

end Mnemonic

namespace OpcodeTable

/-- The standard mnemonics and disabled opcodes, and no handlers. -/
def standard : OpcodeTable where
  names := Opcode.standardNames
  values := Opcode.aliases ++ Opcode.standardNames.map fun p => (p.2, p.1)
  disabled := Opcode.standardDisabled
  overrides := []

def name? (t : OpcodeTable) (op : Opcode) : Option String :=
  t.names.lookup op

def name (t : OpcodeTable) (op : Opcode) : String :=
  (t.name? op).getD (Mnemonic.unknownLead ++ toString op.toNat)

/-- The opcode of a normalized mnemonic. The names of unnamed opcodes stop working once the
opcode is named. -/
def resolve? (t : OpcodeTable) (full : String) : Option Opcode :=
  match t.values.lookup full with
  | some op => some op
  | none =>
    match Mnemonic.unknown? full with
    | some op => if (t.name? op).isSome then none else some op
    | none => none

/-- The opcode that a token names. Case does not matter, and `OP_` may be left out, except
before the digits of an opcode that pushes a number. -/
def value? (t : OpcodeTable) (token : String) : Option Opcode :=
  match t.resolve? (Mnemonic.normalize token) with
  | none => none
  | some op =>
    let upper := upperCase token
    let bareDigit := !Mnemonic.isLed upper && upper.toList.head?.any Char.isDigit
    if bareDigit && op.isNumericPush then none else some op

/-- Gives an opcode a new mnemonic. Its old names stay readable. -/
def rename (t : OpcodeTable) (op : Opcode) (name : String) : OpcodeTable :=
  { t with
    names := (op, Mnemonic.normalize name) :: t.names
    values := (Mnemonic.normalize name, op) :: t.values }

def isDisabled (t : OpcodeTable) (op : Opcode) : Bool :=
  t.disabled.contains op

/-- Disables some opcodes and no others. -/
def setDisabled (t : OpcodeTable) (ops : List Opcode) : OpcodeTable :=
  { t with disabled := ops }

def disabledList (t : OpcodeTable) : List Opcode :=
  Opcode.all.filter t.isDisabled

def handler? (t : OpcodeTable) (op : Opcode) : Option Handler :=
  t.overrides.lookup op

def register (t : OpcodeTable) (op : Opcode) (h : Handler) : OpcodeTable :=
  { t with overrides := (op, h) :: t.overrides }

def unregister (t : OpcodeTable) (op : Opcode) : OpcodeTable :=
  { t with overrides := t.overrides.filter (·.1 != op) }

def handlerList (t : OpcodeTable) : List (Opcode × Handler) :=
  Opcode.all.filterMap fun op => (t.handler? op).map (op, ·)

/-- The standard table with the two lock time handlers. -/
def timeLocked : OpcodeTable :=
  (standard.register Opcode.checkLockTimeVerify NamedHandler.checkLockTime).register
    Opcode.checkSequenceVerify NamedHandler.checkSequence

end OpcodeTable

end CoinScript
