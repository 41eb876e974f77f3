import CoinScript.Proofs.Block.Accessors
import CoinScript.Proofs.Merkle
import CoinScript.Schema.Standard

/-!
Headers bind their transactions.

A header that commits to the transactions of its block commits to no others of the same number, as
long as they have other names and nothing that is hashed in the two trees collides.
-/

namespace CoinScript.Block

variable {b : Block} {txs txs' : List Transaction} {name : String}

lemma transactions_put {rs : List Record} {put : List Record → Record}
    (hname : b.transactionsName = .ok name) (hvector : b.record.vector? name = some (rs, put))
    (hkinds : ∀ tx ∈ txs', tx.record.kind = .transaction) :
    let b' : Block := ⟨put (txs'.map Transaction.record)⟩
    b'.transactions = .ok txs' ∧ b'.header = b.header := by
  intro b'
  have hget := Record.get?_of_vector? hvector (txs'.map Transaction.record)
  obtain ⟨i, -, -, rfl⟩ := Record.vector?_eq_some hvector
  have hnames : b'.headerName = b.headerName ∧ b'.transactionsName = b.transactionsName :=
    names_congr rfl rfl
  obtain ⟨hheader, htransactions⟩ := hnames
  constructor
  · refine transactions_eq_ok.2 ⟨name, htransactions.trans hname, ?_, hkinds⟩
    rw [Record.records?, hget, if_pos rfl]
    rfl
  · refine header_congr hheader fun other hother => ?_
    rw [hget, if_neg (headerName_ne hother hname)]

lemma exists_vector_of_merkleRoot {root : Hash256} (h : b.merkleRoot = .ok root) :
    ∃ name txs put, b.transactionsName = .ok name ∧ b.transactions = .ok txs ∧
      b.record.vector? name = some (txs.map Transaction.record, put) ∧
      Merkle.rootOf (txs.map Transaction.txid) = .ok root := by
  unfold merkleRoot at h
  obtain ⟨txs, htxs, hroot⟩ := Except.bind_eq_ok.1 h
  obtain ⟨name, hname, hrecords, -⟩ := transactions_eq_ok.1 htxs
  -- a root is told of some transactions only, so their vector is there
  have hsome : txs ≠ [] := by
    rintro rfl
    cases hroot
  rw [← Record.vector?_map_fst] at hrecords
  cases hvector : b.record.vector? name with
  | none =>
    rw [hvector] at hrecords
    exact absurd (List.map_eq_nil_iff.1 hrecords.symm) hsome
  | some place =>
    obtain ⟨rs, put⟩ := place
    rw [hvector] at hrecords
    have hrs : rs = txs.map Transaction.record := hrecords
    exact ⟨name, txs, put, hname, htxs, by rw [hvector, hrs], hroot⟩

/-- **Merkle roots bind.** Over any names there is a root: the one node of the last level, where a
level joins the nodes of the level before in pairs and an odd last node with itself, and so the node
that the tree has there by places. All that is hashed on the way has sixty-four bytes. Of two lists
of the same length only equal ones have the same root, unless there is a collision among what is
hashed in the two trees. So if the header of a block commits to its transactions, and others of the
same number are put in their place, with other names, then it does not commit to them. -/
theorem merkleRoot_binds :
    (∀ txids : List Hash256, txids ≠ [] →
      (∃ root, Merkle.rootOf txids = .ok root ∧
        (Merkle.level Merkle.join)^[Nat.clog 2 txids.length] txids = [root] ∧
        Merkle.nodeAt? Merkle.join txids (Nat.clog 2 txids.length) 0 = some root) ∧
      ∀ bytes ∈ Merkle.hashed txids, bytes.length = 64) ∧
    (∀ txids txids' : List Hash256, txids.length = txids'.length →
      Merkle.CollisionFree txids txids' → Merkle.rootOf txids = Merkle.rootOf txids' →
      txids = txids') ∧
    ∀ b : Block, b.checkMerkleRoot = .ok true →
      ∃ name txs put, b.transactionsName = .ok name ∧ b.transactions = .ok txs ∧
        b.record.vector? name = some (txs.map Transaction.record, put) ∧
        ∀ txs' : List Transaction, (∀ tx ∈ txs', tx.record.kind = .transaction) →
          txs'.length = txs.length → txs'.map Transaction.txid ≠ txs.map Transaction.txid →
          Merkle.CollisionFree (txs'.map Transaction.txid) (txs.map Transaction.txid) →
          let b' : Block := ⟨put (txs'.map Transaction.record)⟩
          b'.transactions = .ok txs' ∧ b'.checkMerkleRoot = .ok false := by
  refine ⟨fun txids hsome => ⟨?_, fun bytes => Merkle.length_of_mem_hashed⟩,
    fun txids txids' hlength hfree => Merkle.rootOf_inj hfree hlength, fun b hcheck => ?_⟩
  · obtain ⟨root, hroot, hlevel, hnode⟩ := Merkle.exists_root? Merkle.join hsome
    refine ⟨root, ?_, hlevel, hnode⟩
    unfold Merkle.rootOf
    rw [hroot]
  · obtain ⟨h, committed, root, hheader, hcommitted, hroot, hmatching⟩ :=
      checkMerkleRoot_eq_ok.1 hcheck
    have hsame : committed = root := by simpa using hmatching.symm
    obtain ⟨name, txs, put, hname, htxs, hvector, htree⟩ := exists_vector_of_merkleRoot hroot
    refine ⟨name, txs, put, hname, htxs, hvector, fun txs' hkinds hlength hne hfree => ?_⟩
    -- the header does not change, so it still commits to the old root
    obtain ⟨htxs', hheader'⟩ := transactions_put hname hvector hkinds
    refine ⟨htxs', ?_⟩
    have hsome : txs'.map Transaction.txid ≠ [] := by
      intro hnone
      rw [List.map_eq_nil_iff.1 hnone, List.length_nil] at hlength
      exact hne (by rw [hnone, List.length_eq_zero_iff.1 hlength.symm]; rfl)
    obtain ⟨root', hroot', -⟩ := Merkle.exists_root? Merkle.join hsome
    have htree' : Merkle.rootOf (txs'.map Transaction.txid) = .ok root' := by
      unfold Merkle.rootOf
      rw [hroot']
    have hdiffer : committed ≠ root' := by
      rintro rfl
      exact hne (Merkle.rootOf_inj hfree (by simpa using hlength)
        (htree'.trans (hsame ▸ htree.symm)))
    refine checkMerkleRoot_eq_ok.2 ⟨h, committed, root', hheader'.trans hheader, hcommitted, ?_,
      (beq_eq_false_iff_ne.2 hdiffer).symm⟩
    unfold merkleRoot
    rw [htxs', Except.ok_bind]
    exact htree'

def emptyLocked (n : Nat) : Transaction :=
  ⟨.mk Standard.bitcoin .transaction
    [some (.int 1), some (.records []), some (.records []), some (.uint n)]⟩

/-- A block of two such transactions, with a header that commits to the first before the second. -/
def pairedBlock (first second : Transaction) : Block :=
  ⟨.mk Standard.bitcoin .block
    [some (.record (.mk Standard.bitcoin .blockHeader
      [some (.int 1), some (.hash .zero),
        some (.hash (Merkle.join (emptyLocked 0).txid (emptyLocked 1).txid)),
        some (.uint 0), some (.uint 0), some (.uint 0)])),
    some (.records [first.record, second.record])]⟩

theorem merkleRoot_binds_swapped :
    let names := [(emptyLocked 0).txid, (emptyLocked 1).txid]
    Merkle.CollisionFree names.reverse names ∧
      Merkle.rootOf names.reverse ≠ Merkle.rootOf names ∧
      (pairedBlock (emptyLocked 0) (emptyLocked 1)).checkMerkleRoot = .ok true ∧
      (pairedBlock (emptyLocked 1) (emptyLocked 0)).checkMerkleRoot = .ok false := by
  intro names
  -- the two digests are computed once, and all else follows from their being different
  have hjoins : Merkle.join (emptyLocked 1).txid (emptyLocked 0).txid ≠
      Merkle.join (emptyLocked 0).txid (emptyLocked 1).txid := by decide +kernel
  have hne : names.reverse ≠ names := by
    intro h
    have hsame : (emptyLocked 1).txid = (emptyLocked 0).txid := (List.cons.inj h).1
    rw [hsame] at hjoins
    exact hjoins rfl
  have hfree : Merkle.CollisionFree names.reverse names := by
    rintro x (hx | hx) y (hy | hy) hxy
    all_goals cases List.mem_singleton.1 hx
    all_goals cases List.mem_singleton.1 hy
    · rfl
    · exact absurd hxy hjoins
    · exact absurd hxy.symm hjoins
    · rfl
  have hcheck : (pairedBlock (emptyLocked 0) (emptyLocked 1)).checkMerkleRoot = .ok true := by
    refine checkMerkleRoot_eq_ok.2
      ⟨_, _, Merkle.join (emptyLocked 0).txid (emptyLocked 1).txid, rfl, rfl, rfl, ?_⟩
    exact (beq_self_eq_true _).symm
  obtain ⟨-, hinj, hblocks⟩ := merkleRoot_binds
  obtain ⟨name, txs, put, hname, htxs, hvector, haltered⟩ := hblocks _ hcheck
  have hname₀ : (pairedBlock (emptyLocked 0) (emptyLocked 1)).transactionsName =
      .ok FieldName.transactions := rfl
  have htxs₀ : (pairedBlock (emptyLocked 0) (emptyLocked 1)).transactions =
      .ok [emptyLocked 0, emptyLocked 1] := rfl
  cases hname₀.symm.trans hname
  cases htxs₀.symm.trans htxs
  have hvector₀ : (pairedBlock (emptyLocked 0) (emptyLocked 1)).record.vector?
      FieldName.transactions = some ([(emptyLocked 0).record, (emptyLocked 1).record],
        fun xs => (pairedBlock (emptyLocked 0) (emptyLocked 1)).record.put 1 (.records xs)) := rfl
  cases hvector₀.symm.trans hvector
  have hkinds : ∀ tx ∈ [emptyLocked 1, emptyLocked 0], tx.record.kind = .transaction := by decide
  have hswapped := (haltered [emptyLocked 1, emptyLocked 0] hkinds rfl hne hfree).2
  have hroots : Merkle.rootOf names.reverse ≠ Merkle.rootOf names :=
    fun h => hne (hinj names.reverse names List.length_reverse hfree h)
  exact ⟨hfree, hroots, hcheck, hswapped⟩

end CoinScript.Block
