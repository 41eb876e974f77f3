import CoinScript.Block
import CoinScript.Proofs.Except
import CoinScript.Proofs.Record.Slots

/-!
Blocks as a header and transactions.

Where a block is laid out as a header, transactions and some fields behind them, to change the
header or the transactions is to change that one part: no condition sees the difference. The
parts may be of other networks, since every record brings its own layout.
-/

namespace CoinScript

open FieldName

def headerField : FieldDescriptor := { name := header, encoding := .nested .blockHeader }

def transactionsField : FieldDescriptor :=
  { name := transactions, encoding := .vector .transaction }

/-- Layouts of a chain: standard headers, and blocks that begin with a header and
transactions. -/
structure SchemaSet.Chain (set : SchemaSet) where
  back : List FieldDescriptor
  header : set.fields .blockHeader = Standard.headerFields
  block : set.fields .block = headerField :: transactionsField :: back

namespace Standard

/-- The networks that need no configuration. -/
def networks : List SchemaSet := [bitcoin, clams]

def bitcoinChain : bitcoin.Chain := ⟨[], rfl, rfl⟩

def clamsChain : clams.Chain where
  back := [{ name := "block_sig", encoding := .varBytes, tags := [.signature] }]
  header := rfl
  block := rfl

lemma nonempty_chain {set : SchemaSet} (h : set ∈ networks) : Nonempty set.Chain := by
  simp only [networks, List.mem_cons, List.not_mem_nil, or_false] at h
  rcases h with rfl | rfl
  · exact ⟨bitcoinChain⟩
  · exact ⟨clamsChain⟩

lemma roomy_of_mem {set : SchemaSet} (h : set ∈ networks) : set.Roomy := by
  simp only [networks, List.mem_cons, List.not_mem_nil, or_false] at h
  rcases h with rfl | rfl <;> decide

end Standard

variable {set origin : SchemaSet} {c : set.Chain}

/-! ### Headers of other networks -/

/-- A header under standard layouts, of whatever network. -/
def Record.StandardHeader (r : Record) : Prop :=
  ∃ origin : SchemaSet, origin.fields .blockHeader = Standard.headerFields ∧
    r.WellFormed origin .blockHeader

lemma FieldValue.Matches.of_childless {e : FieldEncoding} {v : FieldValue}
    (h : v.Matches origin e) (he : e.child? = none) : v.Matches set e := by
  cases h with
  | int fits => exact .int fits
  | uint fits => exact .uint fits
  | fixedBytes b => exact .fixedBytes b
  | varBytes b => exact .varBytes b
  | script s => exact .script s
  | hash d => exact .hash d
  | nested wf => cases he
  | vector wf => cases he

lemma Record.Settled.of_childless {earlier : List (FieldDescriptor × Option FieldValue)}
    {fs : List FieldDescriptor} {vs : List (Option FieldValue)}
    (h : Record.Settled origin earlier fs vs) (hfs : ∀ f ∈ fs, f.encoding.child? = none) :
    Record.Settled set earlier fs vs := by
  induction fs generalizing earlier vs with
  | nil =>
    cases h
    exact .nil
  | cons f fs ih =>
    have hrest := fun g hg => hfs g (List.mem_cons_of_mem _ hg)
    cases h with
    | filled holds fits rest =>
      exact .filled holds (fits.of_childless (hfs f List.mem_cons_self)) (ih rest hrest)
    | absent fails rest => exact .absent fails (ih rest hrest)

/-- A header with the same values among the records of another network. -/
def Record.headerUnder (set : SchemaSet) (r : Record) : Record :=
  .mk set .blockHeader r.values

namespace Record.StandardHeader

variable {r : Record}

lemma kind_eq (h : r.StandardHeader) : r.kind = .blockHeader := by
  obtain ⟨_, -, hwf⟩ := h
  exact hwf.kind_eq

lemma wellFormed (h : r.StandardHeader) (hset : set.fields .blockHeader = Standard.headerFields) :
    (r.headerUnder set).WellFormed set .blockHeader := by
  obtain ⟨origin, horigin, hwf⟩ := h
  refine .mk ?_
  have hsettled := hwf.settled
  rw [horigin] at hsettled
  rw [hset]
  exact hsettled.of_childless (by decide)

lemma serialize_headerUnder (h : r.StandardHeader)
    (hset : set.fields .blockHeader = Standard.headerFields) :
    (r.headerUnder set).serialize = r.serialize := by
  obtain ⟨origin, horigin, hwf⟩ := h
  cases hwf with
  | mk _ => rw [headerUnder, Record.serialize, Record.serialize, hset, horigin]; rfl

end Record.StandardHeader

/-! ### The parts of a block -/

namespace Block

/-- What a block holds: a header, transactions and the values of the fields behind them. -/
structure Contents where
  header : Record
  txs : List Record
  back : List (Option FieldValue)

namespace Contents

variable (p : Contents)

def block (set : SchemaSet) : Block :=
  ⟨.mk set .block (some (.record p.header) :: some (.records p.txs) :: p.back)⟩

def ahead : List (FieldDescriptor × Option FieldValue) :=
  [(headerField, some (.record p.header)), (transactionsField, some (.records p.txs))]

/-- A standard header and transactions, each of some network, before values of the block's own
layout. -/
structure Sound (c : set.Chain) : Prop where
  header : p.header.StandardHeader
  txs : ∀ tx ∈ p.txs, ∃ origin, tx.WellFormed origin .transaction
  back : Record.Settled set p.ahead c.back p.back

/-! ### Accessors -/

lemma schema_fields (c : set.Chain) :
    (p.block set).record.schema.fields = headerField :: transactionsField :: c.back := c.block

lemma headerName_block (c : set.Chain) : (p.block set).headerName = .ok FieldName.header := by
  unfold headerName Schema.nestedField?
  rw [p.schema_fields c]
  rfl

lemma transactionsName_block (c : set.Chain) :
    (p.block set).transactionsName = .ok FieldName.transactions := by
  unfold transactionsName Schema.vectorField?
  rw [p.schema_fields c]
  rfl

lemma header_block (c : set.Chain) : (p.block set).header = .ok ⟨p.header⟩ := by
  have hget : (p.block set).record.record? FieldName.header = some p.header := by
    unfold Contents.block
    rw [Record.record?, Record.get?_mk c.block]
    rfl
  unfold Block.header
  rw [p.headerName_block c, Except.ok_bind, hget]
  rfl

lemma transactions_block (c : set.Chain) (h : ∀ tx ∈ p.txs, tx.kind = .transaction) :
    (p.block set).transactions = .ok (p.txs.map Transaction.mk) := by
  have hget : (p.block set).record.records? FieldName.transactions = some p.txs := by
    unfold Contents.block
    rw [Record.records?, Record.get?_mk c.block]
    rfl
  have hall : p.txs.mapM Transaction.ofRecord = .ok (p.txs.map Transaction.mk) :=
    Except.mapM_eq_ok fun tx htx => if_pos (h tx htx)
  unfold Block.transactions
  rw [p.transactionsName_block c, Except.ok_bind, hget, Option.getD_some, hall]

/-! ### Changes -/

lemma addTransaction_block (c : set.Chain) (tx : Transaction) :
    (p.block set).addTransaction tx =
      .ok ({ p with txs := p.txs ++ [tx.record] }.block set) := by
  have hvector : (p.block set).record.vector? FieldName.transactions =
      some (p.txs, fun txs => ({ p with txs }.block set).record) :=
    Record.vector?_mk c.block 1 rfl rfl
  unfold addTransaction Record.push?
  rw [p.transactionsName_block c, Except.ok_bind, hvector]
  rfl

variable {p}

lemma Sound.settled_back (h : p.Sound c) (header : Record) (txs : List Record) :
    Record.Settled set { p with header, txs }.ahead c.back p.back :=
  h.back.congr rfl

lemma resettle_block (h : Record.Settled set p.ahead c.back p.back) :
    (p.block set).record.resettle = (p.block set).record := by
  unfold Contents.block
  refine Record.resettle_mk c.block fun make hb => ?_
  rw [Record.settle_cons_of_always rfl, Record.settle_cons_of_always rfl]
  exact congrArg (some _ :: some _ :: ·) (Record.settle_of_settled h _)

lemma Sound.setHeader_block (h : p.Sound c) {h' : BlockHeader} (hh : h'.record.StandardHeader) :
    (p.block set).setHeader h' = .ok ({ p with header := h'.record }.block set) := by
  have hcoerce : headerField.coerce (.record h'.record) = .ok (.record h'.record) := by
    simp [FieldDescriptor.coerce, headerField, hh.kind_eq]
  have hset : (p.block set).record.set FieldName.header (.record h'.record) =
      .ok ({ p with header := h'.record }.block set).record :=
    Record.set_mk_of_resettle c.block 0 (.record h'.record) rfl rfl hcoerce rfl
      (resettle_block (h.settled_back _ _))
  unfold Block.setHeader
  rw [p.headerName_block c, Except.ok_bind, hset]
  rfl

end Contents

end Block

end CoinScript
