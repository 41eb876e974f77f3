import CoinScript.Opcode.Table
import CoinScript.Schema.Standard

/-!
Network profiles: the schemas and the opcode table of a network, used as a unit, and the
configurations that they are built from.
-/

namespace CoinScript

/-- A network: its layouts and its opcodes. -/
structure Profile where
  name : String
  schemas : SchemaSet
  opcodes : OpcodeTable

/-- What a configuration says. Layouts it leaves out are the standard ones. -/
structure ProfileConfig where
  name : String := ""
  layout? : EntityKind → Option (List FieldDescriptor) := fun _ => none
  /-- Mnemonics and the new mnemonics of what they name. -/
  renames : List (String × String) := []
  /-- Mnemonics of the disabled opcodes, in place of the standard ones. -/
  disabled? : Option (List String) := none
  /-- Mnemonics and the names of the handlers for what they name. -/
  overrides : List (String × String) := []

namespace ProfileConfig

def fields (c : ProfileConfig) (kind : EntityKind) : List FieldDescriptor :=
  (c.layout? kind).getD (Standard.fields kind)

/-- The schemas, in the order in which their faults are reported. -/
def schemas (c : ProfileConfig) : Except Fault SchemaSet := do
  let outpoint ← Schema.ofFields .outPoint (c.fields .outPoint)
  let txin ← Schema.ofFields .txIn (c.fields .txIn)
  let txout ← Schema.ofFields .txOut (c.fields .txOut)
  let transaction ← Schema.ofFields .transaction (c.fields .transaction)
  let header ← Schema.ofFields .blockHeader (c.fields .blockHeader)
  let block ← Schema.ofFields .block (c.fields .block)
  return ⟨outpoint, txin, txout, transaction, header, block⟩

def resolve (c : ProfileConfig) (t : OpcodeTable) (name : String) : Except Fault Opcode :=
  match t.value? name with
  | some op => .ok op
  | none => .error (.schema (.unknownOpcode name c.name))

/-- Gives the opcode that the first mnemonic names, by now, the second. -/
def rename (c : ProfileConfig) (t : OpcodeTable) (entry : String × String) :
    Except Fault OpcodeTable :=
  return t.rename (← c.resolve t entry.1) entry.2

/-- Gives the opcode that a mnemonic names a handler. -/
def override (c : ProfileConfig) (t : OpcodeTable) (entry : String × String) :
    Except Fault OpcodeTable := do
  let op ← c.resolve t entry.1
  match Handler.ofName? entry.2 with
  | some h => return t.register op h
  | none => throw (.schema (.unknownHandler entry.2 entry.1))

/-- The opcode table: renamed, then with its disabled opcodes, then with its handlers. -/
def opcodes (c : ProfileConfig) : Except Fault OpcodeTable := do
  let t ← c.renames.foldlM c.rename OpcodeTable.timeLocked
  let t ←
    match c.disabled? with
    | some names => pure (t.setDisabled (← names.mapM (c.resolve t)))
    | none => pure t
  c.overrides.foldlM c.override t

end ProfileConfig

namespace Profile

/-- The network with the standard layouts. -/
def bitcoin : Profile := ⟨"bitcoin", Standard.bitcoin, OpcodeTable.timeLocked⟩

/-- The network with timed transactions and signed blocks. -/
def clams : Profile := ⟨"clams", Standard.clams, OpcodeTable.timeLocked⟩

/-- The network that a configuration describes, unless it breaks a rule. -/
def ofConfig (c : ProfileConfig) : Except Fault Profile := do
  let schemas ← c.schemas
  return ⟨c.name, schemas, ← c.opcodes⟩

end Profile

end CoinScript
