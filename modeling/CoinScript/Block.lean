import CoinScript.Merkle
import CoinScript.Transaction

/-!
Blocks and their headers.

A header commits to the transactions of its block by the Merkle root of their names.
-/

namespace CoinScript

/-- A record of the kind of block headers. -/
structure BlockHeader where
  record : Record
  deriving DecidableEq

namespace BlockHeader

def new (set : SchemaSet) : BlockHeader :=
  ⟨Record.new set .blockHeader⟩

def serialize (h : BlockHeader) : Bytes := h.record.serialize

/-- The name of a block: the double digest of its header. -/
def hash (h : BlockHeader) : Hash256 := doubleSha256 h.serialize

/-- The Merkle root that a header commits to; the field must hold thirty-two bytes. -/
def merkleRoot (h : BlockHeader) : Except Fault Hash256 :=
  match h.record.bytes? FieldName.merkleRoot with
  | none => .error (.schema .noMerkleRoot)
  | some b =>
    match Hash256.ofBytes? b with
    | some root => .ok root
    | none => .error (.encoding (.merkleRootSize b.length))

def setMerkleRoot (h : BlockHeader) (root : Hash256) : Except Fault BlockHeader :=
  return ⟨← h.record.set FieldName.merkleRoot (.hash root)⟩

end BlockHeader

namespace Merkle

def join (a b : Hash256) : Hash256 := doubleSha256 (a.bytes ++ b.bytes)

/-- The root of a list of transaction names. -/
def rootOf (txids : List Hash256) : Except Fault Hash256 :=
  match root? join txids with
  | some h => .ok h
  | none => .error (.schema .emptyMerkleTree)

end Merkle

/-- A record of the kind of blocks. -/
structure Block where
  record : Record
  deriving DecidableEq

namespace Block

def new (set : SchemaSet) : Block :=
  ⟨Record.new set .block⟩

def deserialize (set : SchemaSet) (b : Bytes) : Except Fault Block :=
  return ⟨← Record.deserialize set .block b⟩

def serialize (b : Block) : Bytes := b.record.serialize

def headerName (b : Block) : Except Fault String :=
  match b.record.schema.nestedField? .blockHeader with
  | some name => .ok name
  | none => .error (.schema .noHeader)

def transactionsName (b : Block) : Except Fault String :=
  match b.record.schema.vectorField? .transaction with
  | some name => .ok name
  | none => .error (.schema .noTransactions)

/-- A copy of the header. Changes to it take effect through `setHeader`. -/
def header (b : Block) : Except Fault BlockHeader := do
  let name ← b.headerName
  match b.record.record? name with
  | some r => return ⟨r⟩
  | none => throw (.schema (.absent name))

/-- Puts a header, of any network, in the place of the block's own. -/
def setHeader (b : Block) (h : BlockHeader) : Except Fault Block :=
  return ⟨← b.record.set (← b.headerName) (.record h.record)⟩

/-- The transactions; none where the vector is absent. -/
def transactions (b : Block) : Except Fault (List Transaction) := do
  let name ← b.transactionsName
  ((b.record.records? name).getD []).mapM Transaction.ofRecord

/-- Appends a transaction, of any network. -/
def addTransaction (b : Block) (tx : Transaction) : Except Fault Block := do
  let name ← b.transactionsName
  match b.record.push? name tx.record with
  | some r => return ⟨r⟩
  | none => throw (.schema (.absent name))

def hash (b : Block) : Except Fault Hash256 :=
  return (← b.header).hash

def merkleRoot (b : Block) : Except Fault Hash256 := do
  Merkle.rootOf ((← b.transactions).map Transaction.txid)

def checkMerkleRoot (b : Block) : Except Fault Bool := do
  let committed ← (← b.header).merkleRoot
  return committed == (← b.merkleRoot)

/-- Makes the header commit to the block's transactions. -/
def updateMerkleRoot (b : Block) : Except Fault Block := do
  let root ← b.merkleRoot
  let header ← (← b.header).setMerkleRoot root
  b.setHeader header

end Block

namespace Read

def block (set : SchemaSet) : Read Block :=
  return ⟨← record set .block⟩

end Read

end CoinScript
