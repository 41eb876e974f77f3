import CoinScript.Block
import CoinScript.Proofs.Except
import CoinScript.Proofs.Record.Names

/-!
What the accessors of a block give, by the names of its fields.

The header and the transactions stand in different fields, whatever the layout of the block is, so
what is changed in the one of them does not show in the other.
-/

namespace CoinScript

namespace Transaction

variable {rs : List Record} {txs : List Transaction}

lemma mapM_ofRecord_eq_ok : rs.mapM ofRecord = .ok txs ↔
    rs = txs.map Transaction.record ∧ ∀ tx ∈ txs, tx.record.kind = .transaction := by
  constructor
  · intro h
    induction rs generalizing txs with
    | nil =>
      cases h
      exact ⟨rfl, nofun⟩
    | cons r rs ih =>
      rw [List.mapM_cons] at h
      obtain ⟨tx, hfirst, h⟩ := Except.bind_eq_ok.1 h
      obtain ⟨txs, hrest, h⟩ := Except.bind_eq_ok.1 h
      cases h
      obtain ⟨rfl, hkinds⟩ := ih hrest
      unfold ofRecord at hfirst
      split at hfirst
      next hkind =>
        cases hfirst
        refine ⟨rfl, fun tx htx => ?_⟩
        rcases List.mem_cons.1 htx with rfl | htx
        · exact hkind
        · exact hkinds tx htx
      next => cases hfirst
  · rintro ⟨rfl, hkinds⟩
    have hall : (txs.map Transaction.record).mapM ofRecord =
        .ok ((txs.map Transaction.record).map Transaction.mk) :=
      Except.mapM_eq_ok fun r hr => by
        obtain ⟨tx, htx, rfl⟩ := List.mem_map.1 hr
        exact if_pos (hkinds tx htx)
    rw [hall, List.map_map]
    exact congrArg Except.ok (List.map_id txs)

end Transaction

lemma BlockHeader.merkleRoot_eq_ok {h : BlockHeader} {root : Hash256} :
    h.merkleRoot = .ok root ↔ h.record.bytes? FieldName.merkleRoot = some root.bytes := by
  unfold merkleRoot
  cases h.record.bytes? FieldName.merkleRoot with
  | none => simp
  | some b =>
    have hbytes : some b = some root.bytes ↔ Hash256.ofBytes? b = some root := by
      rw [Hash256.ofBytes?_eq_some, Option.some.injEq, eq_comm]
    rw [hbytes]
    cases hb : Hash256.ofBytes? b <;> simp [hb]

namespace Block

variable {b b' : Block} {name name' : String} {h : BlockHeader} {txs : List Transaction}

lemma headerName_eq_ok :
    b.headerName = .ok name ↔ b.record.schema.nestedField? .blockHeader = some name := by
  unfold headerName
  cases b.record.schema.nestedField? .blockHeader <;> simp

lemma transactionsName_eq_ok :
    b.transactionsName = .ok name ↔ b.record.schema.vectorField? .transaction = some name := by
  unfold transactionsName
  cases b.record.schema.vectorField? .transaction <;> simp

lemma headerName_ne (hheader : b.headerName = .ok name)
    (htransactions : b.transactionsName = .ok name') : name ≠ name' := by
  obtain ⟨f, hf, rfl, hnested⟩ := Schema.field_of_nestedField? (headerName_eq_ok.1 hheader)
  obtain ⟨g, hg, rfl, hvector⟩ :=
    Schema.field_of_vectorField? (transactionsName_eq_ok.1 htransactions)
  intro hname
  cases Schema.eq_of_mem hf hg hname
  cases hnested.symm.trans hvector

lemma header_eq_ok : b.header = .ok h ↔
    ∃ name, b.headerName = .ok name ∧ b.record.get? name = some (.record h.record) := by
  rcases h with ⟨inner⟩
  have hrecord (name : String) :
      b.record.record? name = some inner ↔ b.record.get? name = some (.record inner) := by
    unfold Record.record?
    rw [Option.bind_eq_some_iff]
    constructor
    · rintro ⟨v, hv, hinner⟩
      cases v <;> cases hinner
      exact hv
    · exact fun hv => ⟨_, hv, rfl⟩
  unfold header
  rw [Except.bind_eq_ok]
  refine exists_congr fun name => and_congr_right fun _ => ?_
  rw [← hrecord]
  cases b.record.record? name with
  | none => simp [throw, throwThe, MonadExceptOf.throw]
  | some r => simp [pure, Except.pure]

lemma transactions_eq_ok : b.transactions = .ok txs ↔
    ∃ name, b.transactionsName = .ok name ∧
      (b.record.records? name).getD [] = txs.map Transaction.record ∧
      ∀ tx ∈ txs, tx.record.kind = .transaction := by
  unfold transactions
  rw [Except.bind_eq_ok]
  exact exists_congr fun name => and_congr_right fun _ => Transaction.mapM_ofRecord_eq_ok

lemma names_congr (hschemas : b'.record.schemas = b.record.schemas)
    (hkind : b'.record.kind = b.record.kind) :
    b'.headerName = b.headerName ∧ b'.transactionsName = b.transactionsName := by
  obtain ⟨s, k, vs⟩ := b
  obtain ⟨s', k', vs'⟩ := b'
  cases hschemas
  cases hkind
  exact ⟨rfl, rfl⟩

lemma header_congr (hnames : b'.headerName = b.headerName)
    (hget : ∀ name, b.headerName = .ok name → b'.record.get? name = b.record.get? name) :
    b'.header = b.header := by
  unfold header
  rw [hnames]
  refine Except.bind_congr_ok fun name hname => ?_
  simp only [Record.record?, hget name hname]

lemma transactions_congr (hnames : b'.transactionsName = b.transactionsName)
    (hget : ∀ name, b.transactionsName = .ok name → b'.record.get? name = b.record.get? name) :
    b'.transactions = b.transactions := by
  unfold transactions
  rw [hnames]
  refine Except.bind_congr_ok fun name hname => ?_
  simp only [Record.records?, hget name hname]

lemma merkleRoot_congr (h : b'.transactions = b.transactions) : b'.merkleRoot = b.merkleRoot := by
  unfold merkleRoot
  rw [h]

lemma checkMerkleRoot_eq_ok {matching : Bool} : b.checkMerkleRoot = .ok matching ↔
    ∃ h committed root, b.header = .ok h ∧ h.merkleRoot = .ok committed ∧
      b.merkleRoot = .ok root ∧ matching = (committed == root) := by
  unfold checkMerkleRoot
  simp only [Except.bind_eq_ok]
  constructor
  · rintro ⟨h, hheader, committed, hcommitted, root, hroot, hmatching⟩
    cases hmatching
    exact ⟨h, committed, root, hheader, hcommitted, hroot, rfl⟩
  · rintro ⟨h, committed, root, hheader, hcommitted, hroot, rfl⟩
    exact ⟨h, hheader, committed, hcommitted, root, hroot, rfl⟩

end Block

end CoinScript
