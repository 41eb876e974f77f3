import CoinScript.Schema.Set

/-!
The layouts of the two networks that need no configuration.

The second network differs in two kinds: its transactions carry a time after the version and,
from version 2 on, a free text at the end; its blocks end with a signature.
-/

namespace CoinScript.Standard

open FieldName

def outpointFields : List FieldDescriptor :=
  [{ name := hash, encoding := .hash, tags := [.txHash] },
   { name := index, encoding := .int 4 false, default? := some (.int 0xffffffff) }]

def txinFields : List FieldDescriptor :=
  [{ name := prevOut, encoding := .nested .outPoint },
   { name := scriptSig, encoding := .script },
   { name := sequence, encoding := .int 4 false, default? := some (.int 0xffffffff),
     tags := [.sequence] }]

def txoutFields : List FieldDescriptor :=
  [{ name := value, encoding := .int 8 true, tags := [.amount] },
   { name := scriptPubKey, encoding := .script }]

def transactionFields : List FieldDescriptor :=
  [{ name := version, encoding := .int 4 true, default? := some (.int 1) },
   { name := inputs, encoding := .vector .txIn },
   { name := outputs, encoding := .vector .txOut },
   { name := lockTime, encoding := .int 4 false, tags := [.lockTime] }]

def headerFields : List FieldDescriptor :=
  [{ name := version, encoding := .int 4 true, default? := some (.int 1) },
   { name := prevBlock, encoding := .hash, tags := [.blockHash] },
   { name := merkleRoot, encoding := .hash, tags := [.txHash] },
   { name := timestamp, encoding := .int 4 false, tags := [.timestamp] },
   { name := bits, encoding := .int 4 false },
   { name := nonce, encoding := .int 4 false }]

def blockFields : List FieldDescriptor :=
  [{ name := header, encoding := .nested .blockHeader },
   { name := transactions, encoding := .vector .transaction }]

/-- Transactions with a time, and with a speech from version 2 on. -/
def timedTransactionFields : List FieldDescriptor :=
  [{ name := version, encoding := .int 4 true, default? := some (.int 1) },
   { name := "time", encoding := .int 4 false, tags := [.timestamp] },
   { name := inputs, encoding := .vector .txIn },
   { name := outputs, encoding := .vector .txOut },
   { name := lockTime, encoding := .int 4 false, tags := [.lockTime] },
   { name := "clam_speech", encoding := .varBytes, presence := .greaterThan version 1,
     tags := [.commentary] }]

/-- Blocks that end with a signature. -/
def signedBlockFields : List FieldDescriptor :=
  [{ name := header, encoding := .nested .blockHeader },
   { name := transactions, encoding := .vector .transaction },
   { name := "block_sig", encoding := .varBytes, tags := [.signature] }]

/-- The fields a kind has where a configuration names none. -/
def fields : EntityKind → List FieldDescriptor
  | .outPoint => outpointFields
  | .txIn => txinFields
  | .txOut => txoutFields
  | .transaction => transactionFields
  | .blockHeader => headerFields
  | .block => blockFields

def bitcoin : SchemaSet where
  outpoint := ⟨outpointFields, by decide⟩
  txin := ⟨txinFields, by decide⟩
  txout := ⟨txoutFields, by decide⟩
  transaction := ⟨transactionFields, by decide⟩
  header := ⟨headerFields, by decide⟩
  block := ⟨blockFields, by decide⟩

/-- The layouts with timed transactions and signed blocks. -/
def clams : SchemaSet :=
  (bitcoin.replace .transaction ⟨timedTransactionFields, by decide⟩).replace .block
    ⟨signedBlockFields, by decide⟩

end CoinScript.Standard
