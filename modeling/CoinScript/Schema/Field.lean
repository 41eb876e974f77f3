import CoinScript.Bytes

/-!
Field descriptors: the name, wire encoding, presence condition, default and tags of one field,
and the kinds of entity that fields may nest.
-/

namespace CoinScript

/-- The kinds of entity that a network lays out. -/
inductive EntityKind where
  | outPoint
  | txIn
  | txOut
  | transaction
  | blockHeader
  | block
  deriving DecidableEq

namespace EntityKind

def all : List EntityKind := [outPoint, txIn, txOut, transaction, blockHeader, block]

/-- Nesting depth. An entity only holds entities of a lower rank. -/
def rank : EntityKind → Nat
  | outPoint => 0
  | txIn | txOut => 1
  | transaction | blockHeader => 2
  | block => 3

theorem rank_lt (k : EntityKind) : k.rank < 4 := by
  cases k <;> decide

theorem rank_lt_succ (k : EntityKind) : k.rank < k.rank + 1 :=
  Nat.lt_succ_self _

/-- The name by which messages call a kind. -/
def title : EntityKind → String
  | outPoint => "OutPoint"
  | txIn => "TxIn"
  | txOut => "TxOut"
  | transaction => "Transaction"
  | blockHeader => "BlockHeader"
  | block => "Block"

/-- The name by which a configuration calls a kind. -/
def key : EntityKind → String
  | outPoint => "out_point"
  | txIn => "tx_in"
  | txOut => "tx_out"
  | transaction => "transaction"
  | blockHeader => "block_header"
  | block => "block"

def ofKey? (s : String) : Option EntityKind :=
  all.find? (·.key = s)

end EntityKind

/-- How a field is laid out on the wire. -/
inductive FieldEncoding where
  /-- A little-endian integer of `width` bytes. -/
  | int (width : Nat) (signed : Bool)
  | fixedBytes (width : Nat)
  /-- Bytes behind their number. -/
  | varBytes
  /-- A script behind its length. -/
  | script
  | hash
  /-- One entity in place. -/
  | nested (kind : EntityKind)
  /-- Entities behind their number. -/
  | vector (kind : EntityKind)
  deriving DecidableEq

namespace FieldEncoding

/-- The kind of entity a field holds, if it holds any. -/
def child? : FieldEncoding → Option EntityKind
  | nested k | vector k => some k
  | _ => none

def isInt : FieldEncoding → Bool
  | int _ _ => true
  | _ => false

/-- Every entity held is of a rank below `n`. -/
def Below (n : Nat) (e : FieldEncoding) : Prop :=
  ∀ k, e.child? = some k → k.rank < n

/-- The number of bytes on the wire, where all values take the same. -/
def fixedWidth? : FieldEncoding → Option Nat
  | int width _ => some width
  | fixedBytes width => some width
  | hash => some 32
  | _ => none

def describe : FieldEncoding → String
  | int width signed => s!"Int \x7b width: {width}, signed: {signed} \x7d"
  | fixedBytes width => s!"FixedBytes \x7b width: {width} \x7d"
  | varBytes => "VarBytes"
  | script => "Script"
  | hash => "Hash"
  | nested kind => s!"Nested \x7b kind: {kind.title} \x7d"
  | vector kind => s!"Vector \x7b kind: {kind.title} \x7d"

end FieldEncoding

/-- Whether an integer is representable in `width` bytes, of which at most eight count. -/
def intFits (v : Int) (width : Nat) (signed : Bool) : Bool :=
  let bits := 8 * min width 8
  if signed then -(Nat.pow 2 (bits - 1) : Int) ≤ v && v < Nat.pow 2 (bits - 1)
  else 0 ≤ v && v < Nat.pow 2 bits

/-- What a field means to a reader. The codec takes no notice. -/
inductive FieldTag where
  | amount
  | timestamp
  | blockHash
  | txHash
  | lockTime
  | sequence
  | signature
  | commentary
  deriving DecidableEq

namespace FieldTag

def all : List FieldTag :=
  [amount, timestamp, blockHash, txHash, lockTime, sequence, signature, commentary]

def key : FieldTag → String
  | amount => "amount"
  | timestamp => "timestamp"
  | blockHash => "block_hash"
  | txHash => "tx_hash"
  | lockTime => "lock_time"
  | sequence => "sequence"
  | signature => "signature"
  | commentary => "commentary"

def ofKey? (s : String) : Option FieldTag :=
  all.find? (·.key = s)

end FieldTag

/-- When a field is on the wire at all. -/
inductive Presence where
  | always
  /-- Only if an earlier integer field exceeds `bound`. -/
  | greaterThan (source : String) (bound : Int)
  deriving DecidableEq

/-- The value a new field takes. -/
inductive FieldDefault where
  | int (v : Int)
  | bytes (b : Bytes)
  deriving DecidableEq

/-- One field of a layout. -/
structure FieldDescriptor where
  name : String
  encoding : FieldEncoding
  presence : Presence := .always
  default? : Option FieldDefault := none
  tags : List FieldTag := []
  deriving DecidableEq

/-- Whether a default is a value of the encoding. -/
def FieldDefault.fits : FieldDefault → FieldEncoding → Bool
  | .int v, .int width signed => intFits v width signed
  | .bytes b, .fixedBytes width => b.length == width
  | .bytes b, .hash => b.length == 32
  | .bytes _, .varBytes => true
  | .bytes _, .script => true
  | _, _ => false

/-- The names by which transactions, blocks and their parts know their fields. -/
abbrev FieldName := String

namespace FieldName

def version : FieldName := "version"
def inputs : FieldName := "inputs"
def outputs : FieldName := "outputs"
def lockTime : FieldName := "lock_time"
def prevOut : FieldName := "prev_out"
def scriptSig : FieldName := "script_sig"
def sequence : FieldName := "sequence"
def hash : FieldName := "hash"
def index : FieldName := "index"
def value : FieldName := "value"
def scriptPubKey : FieldName := "script_pubkey"
def prevBlock : FieldName := "prev_block"
def merkleRoot : FieldName := "merkle_root"
def timestamp : FieldName := "timestamp"
def bits : FieldName := "bits"
def nonce : FieldName := "nonce"
def header : FieldName := "header"
def transactions : FieldName := "transactions"

end FieldName

end CoinScript
