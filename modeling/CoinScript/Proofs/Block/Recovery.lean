import CoinScript.Proofs.Block.Contents

/-!
Which blocks are read back from their bytes.

A block takes transactions and headers of any network. Headers have the same layout in both
networks, so a foreign header does no harm. A foreign transaction is written by its own layout
and read by the block's: a block comes back as it was exactly if it holds none.
-/

namespace CoinScript

variable {set : SchemaSet} {c : set.Chain}

namespace Block

/-- The blocks that can be come by under some schemas, with transactions and headers of either
network. -/
inductive Built (set : SchemaSet) : Block → Prop
  | new : Built set (new set)
  | deserialize {bytes b} (h : deserialize set bytes = .ok b) : Built set b
  | addTransaction {b origin tx b'} (hb : Built set b) (ho : origin ∈ Standard.networks)
      (ht : Record.Reachable origin tx.record) (hk : tx.record.kind = .transaction)
      (h : b.addTransaction tx = .ok b') : Built set b'
  | setHeader {b origin header b'} (hb : Built set b) (ho : origin ∈ Standard.networks)
      (hh : Record.Reachable origin header.record) (hk : header.record.kind = .blockHeader)
      (h : b.setHeader header = .ok b') : Built set b'
  | updateMerkleRoot {b b'} (hb : Built set b) (h : b.updateMerkleRoot = .ok b') : Built set b'

/-- The bytes of a block are those of a block with the same transactions and a header of the
same bytes. -/
def Recovered (set : SchemaSet) (b : Block) : Prop :=
  ∃ b' txs header header', deserialize set b.serialize = .ok b' ∧
    b.transactions = .ok txs ∧ b'.transactions = .ok txs ∧
    b.header = .ok header ∧ b'.header = .ok header' ∧ header'.serialize = header.serialize

lemma wellFormed_of_deserialize {bytes : Bytes} {b : Block} (h : deserialize set bytes = .ok b) :
    b.record.WellFormed set .block := by
  obtain ⟨r, hr, hb⟩ := Except.bind_eq_ok.1 h
  cases hb
  obtain ⟨_, hread, -⟩ := Record.deserialize_eq_ok.1 hr
  exact (Read.record_faithful _ _ _ _ hread).1

lemma standardHeader_of_setMerkleRoot {header header' : BlockHeader} {root : Hash256}
    (hh : header.record.StandardHeader) (h : header.setMerkleRoot root = .ok header') :
    header'.record.StandardHeader := by
  obtain ⟨origin, horigin, hwf⟩ := hh
  obtain ⟨r, hr, hheader⟩ := Except.bind_eq_ok.1 h
  cases hheader
  exact ⟨origin, horigin, Record.set_wellFormed hwf (by simp [FieldValue.parts]) hr⟩

namespace Contents

variable {p : Contents}

/-! ### What changes preserve -/

lemma Sound.addTransaction (h : p.Sound c) {origin : SchemaSet} {tx : Record}
    (htx : tx.WellFormed origin .transaction) : { p with txs := p.txs ++ [tx] }.Sound c where
  header := h.header
  txs := by
    intro t ht
    rcases List.mem_append.1 ht with ht | ht
    · exact h.txs t ht
    · exact ⟨origin, List.mem_singleton.1 ht ▸ htx⟩
  back := h.settled_back _ _

lemma Sound.setHeader (h : p.Sound c) {header : Record} (hh : header.StandardHeader) :
    { p with header }.Sound c where
  header := hh
  txs := h.txs
  back := h.settled_back _ _

lemma exists_of_wellFormed (c : set.Chain) {b : Block} (h : b.record.WellFormed set .block) :
    ∃ p : Contents, p.Sound c ∧ b = p.block set ∧
      ∀ tx ∈ p.txs, tx.WellFormed set .transaction := by
  rcases b with ⟨r⟩
  cases h with
  | mk settled =>
    rw [c.block] at settled
    obtain ⟨_, _, rfl, hheader, settled⟩ := settled.cons_of_always rfl
    obtain ⟨_, back, rfl, htxs, settled⟩ := settled.cons_of_always rfl
    cases hheader with
    | nested hheader =>
      cases htxs with
      | vector htxs =>
        exact ⟨⟨_, _, back⟩, ⟨⟨set, c.header, hheader⟩, fun tx htx => ⟨set, htxs tx htx⟩, settled⟩,
          rfl, htxs⟩

/-! ### The bytes of a block -/

/-- The contents with the header among the records of a network. -/
def home (set : SchemaSet) (p : Contents) : Contents :=
  { p with header := p.header.headerUnder set }

lemma Sound.wellFormed_home (h : p.Sound c) (hown : ∀ tx ∈ p.txs, tx.schemas = set) :
    ((p.home set).block set).record.WellFormed set .block := by
  have htxs : ∀ tx ∈ p.txs, tx.WellFormed set .transaction := by
    intro tx htx
    obtain ⟨origin, hwf⟩ := h.txs tx htx
    obtain rfl := hwf.schemas_eq.symm.trans (hown tx htx)
    exact hwf
  refine .mk ?_
  rw [c.block]
  exact .filled rfl (.nested (h.header.wellFormed c.header))
    (.filled rfl (.vector htxs) (h.settled_back _ _))

lemma Sound.serialize_home (h : p.Sound c) :
    ((p.home set).block set).serialize = (p.block set).serialize := by
  have hheader := h.header.serialize_headerUnder c.header
  simp only [Block.serialize, block, home, Record.serialize, c.block, Record.writeSlots,
    Record.writeSlot, headerField, FieldValue.write, hheader]

lemma Sound.kind_eq (h : p.Sound c) : ∀ tx ∈ p.txs, tx.kind = .transaction := by
  intro tx htx
  obtain ⟨_, hwf⟩ := h.txs tx htx
  exact hwf.kind_eq

lemma Sound.deserialize (hroom : set.Roomy) (h : p.Sound c)
    (hown : ∀ tx ∈ p.txs, tx.schemas = set)
    (hlen : (p.block set).serialize.length < Nat.pow 256 8) :
    Block.deserialize set (p.block set).serialize = .ok ((p.home set).block set) := by
  rw [← h.serialize_home] at hlen ⊢
  have hread := Record.deserialize_of_wellFormed hroom (h.wellFormed_home hown) hlen
  unfold Block.deserialize
  rw [Block.serialize, hread]
  rfl

end Contents

/-- **Every block that can be come by** is a header and transactions, each of some network. -/
lemma Built.exists_contents (c : set.Chain) {b : Block} (h : b.Built set) :
    ∃ p : Contents, p.Sound c ∧ b = p.block set := by
  -- on how the block was come by: each step leaves a header and transactions
  induction h with
  | new =>
    obtain ⟨p, hp, hb, -⟩ := Contents.exists_of_wellFormed c (Record.new_wellFormed set .block)
    exact ⟨p, hp, hb⟩
  | deserialize h =>
    obtain ⟨p, hp, hb, -⟩ := Contents.exists_of_wellFormed c (wellFormed_of_deserialize h)
    exact ⟨p, hp, hb⟩
  | addTransaction _ _ ht hk h ih =>
    obtain ⟨p, hp, rfl⟩ := ih
    have htx := ht.wellFormed
    rw [hk] at htx
    rw [p.addTransaction_block c] at h
    cases h
    exact ⟨_, hp.addTransaction htx, rfl⟩
  | setHeader _ ho hh hk h ih =>
    obtain ⟨p, hp, rfl⟩ := ih
    obtain ⟨chain⟩ := Standard.nonempty_chain ho
    have hwf := hh.wellFormed
    rw [hk] at hwf
    have hheader : Record.StandardHeader _ := ⟨_, chain.header, hwf⟩
    rw [hp.setHeader_block hheader] at h
    cases h
    exact ⟨_, hp.setHeader hheader, rfl⟩
  | updateMerkleRoot _ h ih =>
    obtain ⟨p, hp, rfl⟩ := ih
    unfold Block.updateMerkleRoot at h
    obtain ⟨root, -, h⟩ := Except.bind_eq_ok.1 h
    rw [p.header_block c, Except.ok_bind] at h
    obtain ⟨header, hroot, h⟩ := Except.bind_eq_ok.1 h
    have hheader := standardHeader_of_setMerkleRoot hp.header hroot
    rw [hp.setHeader_block hheader] at h
    cases h
    exact ⟨_, hp.setHeader hheader, rfl⟩

/-- **A block comes back from its bytes** exactly if all its transactions are of its own
network. -/
theorem Built.recovered_iff (hset : set ∈ Standard.networks) {b : Block} (hb : b.Built set)
    (hlen : b.serialize.length < Nat.pow 256 8) :
    ∃ txs, b.transactions = .ok txs ∧
      (b.Recovered set ↔ ∀ tx ∈ txs, tx.record.schemas = set) := by
  obtain ⟨c⟩ := Standard.nonempty_chain hset
  obtain ⟨p, hp, rfl⟩ := hb.exists_contents c
  have htxs := p.transactions_block c hp.kind_eq
  refine ⟨_, htxs, ?_, ?_⟩
  · -- what is read carries the schemas that it is read by
    rintro ⟨b', txs, _, _, hread, htxs', hback, -, -, -⟩
    cases htxs.symm.trans htxs'
    obtain ⟨p', hp', rfl, hown⟩ := Contents.exists_of_wellFormed c (wellFormed_of_deserialize hread)
    have hsame := (p'.transactions_block c hp'.kind_eq).symm.trans hback
    rw [Except.ok.injEq] at hsame
    rw [← hsame]
    intro tx htx
    obtain ⟨r, hr, rfl⟩ := List.mem_map.1 htx
    exact (hown r hr).schemas_eq
  · -- the header alone may be foreign, and its bytes do not tell
    intro hown
    have hown' : ∀ tx ∈ p.txs, tx.schemas = set := fun tx htx =>
      hown ⟨tx⟩ (List.mem_map_of_mem htx)
    have hread := hp.deserialize (Standard.roomy_of_mem hset) hown' hlen
    exact ⟨_, _, _, _, hread, htxs, (p.home set).transactions_block c hp.kind_eq,
      p.header_block c, (p.home set).header_block c, hp.header.serialize_headerUnder c.header⟩

/-- A block that ends with a signature, around a transaction of its own and a header of the other
network. -/
def hosted : Block :=
  ⟨.mk Standard.clams .block [some (.record (.new Standard.bitcoin .blockHeader)),
    some (.records [Record.sent]), some (.bytes [])]⟩

lemma hosted_built : hosted.Built Standard.clams := by
  have spent : Built Standard.clams _ := Built.new.addTransaction (by decide) Record.sent_reachable
    rfl (show addTransaction _ ⟨Record.sent⟩ = .ok _ from rfl)
  exact spent.setHeader (by decide) (.new .blockHeader) rfl
    (show setHeader _ (.new Standard.bitcoin) = .ok hosted from rfl)

theorem hosted_recovered :
    Standard.clams ∈ Standard.networks ∧ hosted.Built Standard.clams ∧
      hosted.serialize.length < Nat.pow 256 8 ∧ hosted.transactions = .ok [⟨Record.sent⟩] ∧
      hosted.Recovered Standard.clams := by
  have hset : Standard.clams ∈ Standard.networks := by decide
  have hlen : hosted.serialize.length < Nat.pow 256 8 := by decide
  have held : hosted.transactions = .ok [⟨Record.sent⟩] := rfl
  obtain ⟨txs, htxs, hiff⟩ := hosted_built.recovered_iff hset hlen
  cases held.symm.trans htxs
  have hown : ∀ tx ∈ [Transaction.mk Record.sent], tx.record.schemas = Standard.clams := by
    intro tx htx
    rw [List.mem_singleton.1 htx]
    rfl
  exact ⟨hset, hosted_built, hlen, held, hiff.2 hown⟩

def mixed : Block :=
  ⟨.mk Standard.bitcoin .block [some (.record (.new Standard.bitcoin .blockHeader)),
    some (.records [.new Standard.clams .transaction])]⟩

/-- **A foreign transaction may be added and then not be read**: it has four bytes more than the
layout of the block's network gives it. -/
theorem mixed_not_recovered :
    mixed.Built Standard.bitcoin ∧
      deserialize Standard.bitcoin mixed.serialize = .error (.encoding (.trailing 4 .block)) ∧
      ¬ mixed.Recovered Standard.bitcoin := by
  have hread : deserialize Standard.bitcoin mixed.serialize =
      .error (.encoding (.trailing 4 .block)) := rfl
  refine ⟨?_, hread, ?_⟩
  · exact Built.new.addTransaction (by decide) (.new .transaction) rfl
      (show addTransaction _ (.new Standard.clams) = .ok mixed from rfl)
  · rintro ⟨_, _, _, _, hok, -⟩
    cases hread.symm.trans hok

end Block

end CoinScript
