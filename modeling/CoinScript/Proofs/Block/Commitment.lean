import CoinScript.Proofs.Block.Accessors
import CoinScript.Proofs.Record.Handled
import CoinScript.Schema.Standard

/-!
Making a header commit to the transactions of its block.

The root is computed, stored in a copy of the header, and the copy is stored in the block. Both are
assignments to fields that are no integers, so each of them changes nothing else, and nothing is
changed before the last check.
-/

namespace CoinScript

namespace BlockHeader

variable {h h' : BlockHeader} {root : Hash256}

lemma setMerkleRoot_eq_ok : h.setMerkleRoot root = .ok h' ↔
    h.record.set FieldName.merkleRoot (.hash root) = .ok h'.record := by
  unfold setMerkleRoot
  cases h.record.set FieldName.merkleRoot (.hash root) with
  | error e => simp
  | ok r =>
    rw [Except.ok_bind, Except.ok.injEq]
    exact ⟨fun h => by cases h; rfl, fun h => by rw [h]; rfl⟩

lemma replaced_of_setMerkleRoot (hshaped : h.record.Shaped) (hset : h.setMerkleRoot root = .ok h') :
    h.record.Replaced FieldName.merkleRoot (.hash root) h'.record ∧
      h'.setMerkleRoot root = .ok h' := by
  obtain ⟨f, -, -, u, hu, hreplaced, hagain⟩ :=
    Record.replaced_of_set hshaped rfl (setMerkleRoot_eq_ok.1 hset)
  obtain ⟨-, rfl⟩ := hu.of_hash
  exact ⟨hreplaced, setMerkleRoot_eq_ok.2 hagain⟩

end BlockHeader

namespace Block

variable {b b' : Block} {name : String} {h : BlockHeader} {root : Hash256}

lemma setHeader_eq_ok : b.setHeader h = .ok b' ↔
    ∃ name, b.headerName = .ok name ∧ b.record.set name (.record h.record) = .ok b'.record := by
  unfold setHeader
  simp only [Except.bind_eq_ok]
  refine exists_congr fun name => and_congr_right fun _ => ?_
  cases b.record.set name (.record h.record) with
  | error e => simp
  | ok r =>
    simp only [Except.ok.injEq, exists_eq_left']
    exact ⟨fun h => by cases h; rfl, fun h => by rw [h]; rfl⟩

lemma updateMerkleRoot_eq_ok : b.updateMerkleRoot = .ok b' ↔
    ∃ root h h', b.merkleRoot = .ok root ∧ b.header = .ok h ∧ h.setMerkleRoot root = .ok h' ∧
      b.setHeader h' = .ok b' := by
  unfold updateMerkleRoot
  simp only [Except.bind_eq_ok]
  constructor
  · rintro ⟨root, hroot, h, hheader, h', hset, hstore⟩
    exact ⟨root, h, h', hroot, hheader, hset, hstore⟩
  · rintro ⟨root, h, h', hroot, hheader, hset, hstore⟩
    exact ⟨root, hroot, h, hheader, h', hset, hstore⟩

lemma replaced_of_setHeader (hshaped : b.record.Shaped) (hname : b.headerName = .ok name)
    (hset : b.setHeader h = .ok b') :
    b.record.Replaced name (.record h.record) b'.record ∧ b'.header = .ok h ∧
      b'.transactions = b.transactions ∧ b'.setHeader h = .ok b' := by
  obtain ⟨name', hname', hset⟩ := setHeader_eq_ok.1 hset
  cases hname.symm.trans hname'
  obtain ⟨f, -, -, u, hu, hreplaced, hagain⟩ := Record.replaced_of_set hshaped rfl hset
  obtain ⟨-, rfl⟩ := hu.of_record
  obtain ⟨hnames, hnames'⟩ := names_congr hreplaced.schemas hreplaced.kind
  refine ⟨hreplaced, header_eq_ok.2 ⟨name, hnames.trans hname, hreplaced.here⟩,
    transactions_congr hnames' fun other hother => ?_,
    setHeader_eq_ok.2 ⟨name, hnames.trans hname, hagain⟩⟩
  exact hreplaced.elsewhere other (headerName_ne hname hother).symm

/-! ### In place -/

/-- What is done to the record of the block at hand. -/
def onRecord {α : Type} (m : InPlace Fault Record α) : InPlace Fault Block α :=
  ExceptT.mk fun b => ((m.on b.record).1, ⟨(m.on b.record).2⟩)

/-- Makes the header of the block at hand commit to its transactions: the root is stored in a copy
of the header, and then the copy in the block. -/
def commit : InPlace Fault Block Unit := do
  let b ← get
  let root ← ofExcept b.merkleRoot
  let h ← ofExcept b.header
  let stored := (Record.assign FieldName.merkleRoot (.hash root)).on h.record
  ofExcept stored.1
  let name ← ofExcept b.headerName
  onRecord (Record.assign name (.record stored.2))

lemma commit_on (b : Block) : commit.on b =
    match b.updateMerkleRoot with
    | .ok b' => (.ok (), b')
    | .error e => (.error e, b) := by
  have hrecord (name : String) (v : FieldValue) : (onRecord (Record.assign name v)).on b =
      (((Record.assign name v).on b.record).1, ⟨((Record.assign name v).on b.record).2⟩) := rfl
  unfold commit updateMerkleRoot BlockHeader.setMerkleRoot setHeader
  rw [InPlace.on_get_bind]
  cases b.merkleRoot with
  | error e => rfl
  | ok root =>
    rw [InPlace.on_ok_bind, Except.ok_bind]
    cases b.header with
    | error e => rfl
    | ok h =>
      rw [InPlace.on_ok_bind, Except.ok_bind, Record.assign_on]
      -- the header is a copy, so a fault up to here has changed nothing
      cases h.record.set FieldName.merkleRoot (.hash root) with
      | error e => rfl
      | ok r =>
        simp only [InPlace.on_ok_bind, Except.ok_bind]
        cases b.headerName with
        | error e => rfl
        | ok name =>
          rw [InPlace.on_ok_bind, hrecord, Record.assign_on]
          simp only [Except.ok_bind, pure_bind]
          cases b.record.set name (.record r) <;> rfl

/-- **Committing is atomic and exact.** If a block, with whatever header and records in it, is made
to commit to its transactions and that fails, then it is as it was. If it succeeds, the check finds
that the header commits to the transactions; of the block only the header has changed, and of the
header only the root; and to do it once more succeeds and changes nothing. -/
theorem updateMerkleRoot_exact (hb : b.record.Handled) :
    commit.on b = (match b.updateMerkleRoot with
      | .ok b' => (.ok (), b')
      | .error e => (.error e, b)) ∧
    ∀ b', b.updateMerkleRoot = .ok b' →
      b'.checkMerkleRoot = .ok true ∧
      (∃ name root h h', b.headerName = .ok name ∧ b.merkleRoot = .ok root ∧ b.header = .ok h ∧
        b'.header = .ok h' ∧ b.record.Replaced name (.record h'.record) b'.record ∧
        h.record.Replaced FieldName.merkleRoot (.hash root) h'.record) ∧
      b'.updateMerkleRoot = .ok b' := by
  refine ⟨commit_on b, fun b' hupdate => ?_⟩
  obtain ⟨root, h, h', hroot, hheader, hset, hstore⟩ := updateMerkleRoot_eq_ok.1 hupdate
  obtain ⟨name, hname, hget⟩ := header_eq_ok.1 hheader
  have horderly := hb.orderly
  have hinner : h.record.Orderly := horderly.part hget _ (List.mem_singleton_self _)
  obtain ⟨hstored, hset'⟩ := BlockHeader.replaced_of_setMerkleRoot hinner.shaped hset
  obtain ⟨hreplaced, hheader', htxs, hstore'⟩ :=
    replaced_of_setHeader horderly.shaped hname hstore
  -- the root of the transactions does not depend on the header
  have hroot' : b'.merkleRoot = .ok root := (merkleRoot_congr htxs).trans hroot
  have hcommitted : h'.record.bytes? FieldName.merkleRoot = some root.bytes := by
    rw [Record.bytes?, hstored.here]
    rfl
  refine ⟨?_, ⟨name, root, h, h', hname, hroot, hheader, hheader', hreplaced, hstored⟩, ?_⟩
  · refine checkMerkleRoot_eq_ok.2
      ⟨h', root, root, hheader', BlockHeader.merkleRoot_eq_ok.2 hcommitted, hroot', ?_⟩
    simp
  · exact updateMerkleRoot_eq_ok.2 ⟨root, h', h', hroot', hheader', hset', hstore'⟩

/-- A new block onto which a transaction of the other network was pushed. -/
def foreignPushed : Block :=
  ⟨(Record.new Standard.bitcoin .block).put 1 (.records [.new Standard.clams .transaction])⟩

theorem updateMerkleRoot_foreign : foreignPushed.record.Handled ∧
    (∃ b', foreignPushed.updateMerkleRoot = .ok b' ∧ b'.checkMerkleRoot = .ok true ∧
      b'.updateMerkleRoot = .ok b') ∧
    commit.on (Block.new Standard.bitcoin) =
      (.error (.schema .emptyMerkleTree), Block.new Standard.bitcoin) := by
  have hnew : (Record.new Standard.bitcoin .block).Handled := .new _ _
  have hvector : (Record.new Standard.bitcoin .block).vector? FieldName.transactions =
      some ([], fun xs => (Record.new Standard.bitcoin .block).put 1 (.records xs)) := rfl
  have hpushed : ∀ x ∈ [Record.new Standard.clams .transaction], x.Handled := by
    intro x hx
    rw [List.mem_singleton.1 hx]
    exact .new _ _
  have hhandled : foreignPushed.record.Handled := hnew.vector hpushed hvector
  obtain ⟨b', hb'⟩ := Except.exists_of_isOk (x := foreignPushed.updateMerkleRoot) rfl
  obtain ⟨hcheck, -, hagain⟩ := (updateMerkleRoot_exact hhandled).2 b' hb'
  exact ⟨hhandled, ⟨b', hb', hcheck, hagain⟩, (updateMerkleRoot_exact hnew).1⟩

end Block

end CoinScript
