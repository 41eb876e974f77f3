import CoinScript.Proofs.Block.Accessors
import CoinScript.Proofs.Record.Handled
import CoinScript.Proofs.Transaction.Building

/-!
Reading hashes, and writing them where they were read.

A hash is read from every field that holds thirty-two bytes: from a field for hashes, from one for
thirty-two bytes, and from one for bytes of any number while it holds just so many. Writing is not
as wide. A field for hashes takes thirty-two bytes for a hash, but no field for bytes takes a hash
for its bytes, so a root or an outpoint can be there to be read and yet be closed to the calls that
store hashes.
-/

namespace CoinScript

/-- The encodings of the fields from which a hash can be read. -/
inductive FieldEncoding.ShowsHash : FieldEncoding → Prop
  | hash : ShowsHash .hash
  | fixedBytes : ShowsHash (.fixedBytes 32)
  | varBytes : ShowsHash .varBytes

/-- What comes of storing another hash in a field from which one can be read, as a hash and as
bytes. `Shows a y`: the hash `y` is read where it was stored. -/
structure FieldDescriptor.Rehashed {α : Type} (f : FieldDescriptor)
    (storeHash : Hash256 → Except Fault α) (storeBytes : Bytes → Except Fault α)
    (Shows : α → Hash256 → Prop) : Prop where
  encoding : f.encoding.ShowsHash
  hash : f.encoding = .hash → ∀ y, ∃ a, storeHash y = .ok a ∧ Shows a y
  /-- Fields for bytes take no hash, -/
  refused : f.encoding ≠ .hash → ∀ y,
    storeHash y = .error (.encoding (.mismatch (.hash y.bytes) f.encoding f.name))
  /-- but its bytes are taken by all. -/
  bytes : ∀ y : Hash256, ∃ a, storeBytes y.bytes = .ok a ∧ Shows a y

variable {e : FieldEncoding} {f : FieldDescriptor} {v : FieldValue} {x : Hash256}

/-! ### Fields -/

lemma FieldEncoding.Forms.showsHash (h : e.Forms v) (hv : v.bytes? = some x.bytes) :
    e.ShowsHash := by
  cases h with
  | fixedBytes b =>
    cases hv
    rw [x.size]
    exact .fixedBytes
  | varBytes => exact .varBytes
  | hash => exact .hash
  | _ => cases hv

lemma FieldEncoding.ShowsHash.exists_stores (h : e.ShowsHash) (y : Hash256) :
    ∃ u, e.Stores (.bytes y.bytes) u ∧ u.bytes? = some y.bytes := by
  cases h with
  | hash => exact ⟨.hash y, .hashBytes rfl, rfl⟩
  | fixedBytes => exact ⟨.bytes y.bytes, y.size ▸ .fixedBytes y.bytes, rfl⟩
  | varBytes => exact ⟨.bytes y.bytes, .varBytes y.bytes, rfl⟩

lemma FieldDescriptor.coerce_hash (h : f.encoding ≠ .hash) (y : Hash256) :
    f.coerce (.hash y) = .error (.encoding (.mismatch (.hash y.bytes) f.encoding f.name)) := by
  unfold coerce
  cases he : f.encoding with
  | hash => exact absurd he h
  | _ => rfl

namespace FieldDescriptor

variable {α β : Type} {storeHash : Hash256 → Except Fault α} {storeBytes : Bytes → Except Fault α}
  {Shows : α → Hash256 → Prop}

lemma Rehashed.map {storeHash' : Hash256 → Except Fault β} {storeBytes' : Bytes → Except Fault β}
    {Shows' : β → Hash256 → Prop} (h : f.Rehashed storeHash storeBytes Shows) (g : α → β)
    (hhash : ∀ y, storeHash' y = g <$> storeHash y)
    (hbytes : ∀ b, storeBytes' b = g <$> storeBytes b)
    (hshows : ∀ a y, Shows a y → Shows' (g a) y) :
    f.Rehashed storeHash' storeBytes' Shows' := by
  refine ⟨h.encoding, fun he y => ?_, fun he y => ?_, fun y => ?_⟩
  · obtain ⟨a, ha, hy⟩ := h.hash he y
    exact ⟨g a, by rw [hhash, ha, Except.map_ok], hshows a y hy⟩
  · rw [hhash, h.refused he]
    rfl
  · obtain ⟨a, ha, hy⟩ := h.bytes y
    exact ⟨g a, by rw [hbytes, ha, Except.map_ok], hshows a y hy⟩

end FieldDescriptor

/-! ### Records -/

namespace Record

variable {r : Record} {name : String}

/-- **The field that a hash is read from** takes the bytes of another in its place, and the hash
itself if it is a field for hashes. -/
theorem Orderly.rehashed (hr : r.Orderly) (hx : r.bytes? name = some x.bytes) :
    ∃ f ∈ r.descriptors, f.name = name ∧
      f.Rehashed (fun y => r.set name (.hash y)) (fun b => r.set name (.bytes b))
        fun r' y => r'.bytes? name = some y.bytes ∧ ∃ u, r.Replaced name u r' := by
  obtain ⟨v, hv, hbytes⟩ := Option.bind_eq_some_iff.1 hx
  obtain ⟨f, hf, rfl⟩ := exists_of_get? hv
  have hshows : f.encoding.ShowsHash := (hr.formed hf hv).showsHash hbytes
  have hget : (r.get? f.name).isSome = true := by
    rw [hv]
    rfl
  have hread {r' : Record} {u : FieldValue} {y : Hash256} (h : r.Replaced f.name u r')
      (hu : u.bytes? = some y.bytes) :
      r'.bytes? f.name = some y.bytes ∧ ∃ u, r.Replaced f.name u r' :=
    ⟨by rw [bytes?, h.here, Option.bind_some, hu], u, h⟩
  refine ⟨f, hf, rfl, hshows, fun he y => ?_, fun he y => ?_, fun y => ?_⟩
  · obtain ⟨r', hset, hreplaced⟩ :=
      exists_set_of_stores hr.shaped hf hget rfl (he ▸ FieldEncoding.Stores.hash y)
    exact ⟨r', hset, hread hreplaced rfl⟩
  · -- any other field refuses a hash
    obtain ⟨i, hi⟩ := List.mem_iff_getElem?.1 hf
    rw [set_of_field hr.shaped.length hi, hget, f.coerce_hash he]
    rfl
  · -- the bytes of a hash are taken by every field that shows one
    obtain ⟨u, hu, hbytes⟩ := hshows.exists_stores y
    obtain ⟨r', hset, hreplaced⟩ := exists_set_of_stores hr.shaped hf hget rfl hu
    exact ⟨r', hset, hread hreplaced hbytes⟩

end Record

/-! ### Headers -/

lemma BlockHeader.rehashed {h : BlockHeader} (hr : h.record.Orderly) (hx : h.merkleRoot = .ok x) :
    ∃ f ∈ h.record.descriptors, f.name = FieldName.merkleRoot ∧
      f.Rehashed h.setMerkleRoot
        (fun b => mk <$> h.record.set FieldName.merkleRoot (.bytes b))
        fun h' y => h'.merkleRoot = .ok y := by
  obtain ⟨f, hf, hname, hrehashed⟩ := hr.rehashed (merkleRoot_eq_ok.1 hx)
  refine ⟨f, hf, hname, hrehashed.map mk (fun y => ?_) (fun b => rfl) fun r' y hread => ?_⟩
  · exact bind_pure_comp mk _
  · exact merkleRoot_eq_ok.2 hread.1

/-! ### Outpoints -/

namespace Transaction

open FieldName Record

variable {tx : Transaction} {i n : Nat}

def setOutpoint (tx : Transaction) (i : Nat) (name : String) (v : FieldValue) :
    Except Fault Transaction :=
  tx.editInput i fun input =>
    match input.nested? prevOut with
    | some (outpoint, put) => put <$> outpoint.set name v
    | none => throw (.schema (.missing prevOut))

lemma inputPrevout_eq_ok : tx.inputPrevout i = .ok (x, n) ↔
    ∃ input outpoint v, tx.inputs[i]? = some input ∧ input.record? prevOut = some outpoint ∧
      outpoint.int? index = some v ∧ outpoint.bytes? hash = some x.bytes ∧
        word v (.outpointIndexTooWide v) = .ok n := by
  constructor
  · intro h
    have hparts := h
    unfold inputPrevout at hparts
    obtain ⟨input, hinput, hparts⟩ := Except.bind_eq_ok.1 hparts
    obtain ⟨outpoint, houtpoint, hparts⟩ := Except.bind_eq_ok.1 hparts
    obtain ⟨b, -, hparts⟩ := Except.bind_eq_ok.1 hparts
    split at hparts
    · cases hparts
    · obtain ⟨v, hv, -⟩ := Except.bind_eq_ok.1 hparts
      have hi := input_eq_ok.1 hinput
      have ho := required_eq_ok.1 houtpoint
      have hv := required_eq_ok.1 hv
      exact ⟨input, outpoint, v, hi, ho, hv, (inputPrevout_of_input hi ho hv x n).1 h⟩
  · rintro ⟨input, outpoint, v, hi, ho, hv, hread⟩
    exact (inputPrevout_of_input hi ho hv x n).2 hread

lemma rehashed (hr : tx.record.Orderly) (hx : tx.inputPrevout i = .ok (x, n)) :
    ∃ input outpoint, tx.input i = .ok input ∧ input.record? prevOut = some outpoint ∧
      ∃ f ∈ outpoint.descriptors, f.name = hash ∧
        f.Rehashed (fun y => tx.setOutpoint i hash (.hash y))
          (fun b => tx.setOutpoint i hash (.bytes b))
          fun tx' y => tx'.inputPrevout i = .ok (y, n) := by
  obtain ⟨input, outpoint, v, hi, ho, hv, hread, hword⟩ := inputPrevout_eq_ok.1 hx
  obtain ⟨name, rs, put, hname, hvector, hrs⟩ := exists_vector? hi
  have hrecords : tx.record.records? name = some rs := by
    rw [← Record.vector?_map_fst, hvector]
    rfl
  have hinput : input.Orderly := hr.records_part hrecords (List.mem_of_getElem? hrs)
  obtain ⟨f, hf, hfname, hrehashed⟩ := (hinput.record_part ho).rehashed hread
  obtain ⟨⟨outpoint', putOut⟩, hnested, rfl⟩ := Option.map_eq_some_iff.1
    ((Record.nested?_map_fst input prevOut).trans ho)
  -- the field is set in the outpoint, that is put in its input, and that among the inputs
  have hstore (v : FieldValue) : tx.setOutpoint i hash v =
      (fun o => mk (put (rs.set i (putOut o)))) <$> outpoint'.set hash v := by
    unfold setOutpoint editInput editInputs editVector vectorName
    simp only [hname, hvector, hrs, hnested, Except.ok_bind]
    cases outpoint'.set hash v <;> rfl
  refine ⟨input, outpoint', input_eq_ok.2 hi, ho, f, hf, hfname,
    hrehashed.map _ (fun y => hstore _) (fun b => hstore _) ?_⟩
  rintro o y ⟨hbytes, u, hreplaced⟩
  refine inputPrevout_eq_ok.2 ⟨putOut o, o, v, ?_, ?_, ?_, hbytes, hword⟩
  · have hlt : i < rs.length := (List.getElem?_eq_some_iff.1 hrs).1
    rw [inputs, vector_put hname hvector, List.getElem?_set_self hlt]
  · rw [record?, Record.get?_of_nested? hnested, if_pos rfl]
    rfl
  · rw [int?, hreplaced.elsewhere index (by decide)]
    exact hv

lemma addInput_refused {outpoint : Record} (ho : tx.newInput.record? prevOut = some outpoint)
    (hx : outpoint.bytes? hash = some x.bytes) : ∃ f ∈ outpoint.descriptors, f.name = hash ∧
      (f.encoding ≠ .hash → ∀ y prevIndex script seq,
        tx.addInput y prevIndex script seq =
          .error (.encoding (.mismatch (.hash y.bytes) f.encoding f.name))) := by
  have hinput : tx.newInput.Orderly := (new_wellFormed tx.record.schemas .txIn).orderly
  obtain ⟨f, hf, hname, hrehashed⟩ := (hinput.record_part ho).rehashed hx
  refine ⟨f, hf, hname, fun he y prevIndex script seq => ?_⟩
  obtain ⟨⟨outpoint', put⟩, hnested, rfl⟩ := Option.map_eq_some_iff.1
    ((Record.nested?_map_fst tx.newInput prevOut).trans ho)
  unfold addInput
  simp only [hnested, hrehashed.refused he y, Except.error_bind]

end Transaction

/-! ### Both -/

open FieldName Transaction

/-- **A hash that can be read** can be stored over as bytes, and as a hash just where the field is
one for hashes. Whatever the layout is and whatever records were put together, if a root is read
from a header or an outpoint from an input, then the calls that store a hash there succeed and the
hash is read back from a field for hashes, and they are refused by a field for bytes, which takes
the same hash as bytes. Where new outpoints have such a field, no input can be appended at all. -/
theorem readable_hash_rewritten (h : BlockHeader) (tx : Transaction) :
    (∀ root, h.record.Handled → h.merkleRoot = .ok root →
      ∃ f ∈ h.record.descriptors, f.name = merkleRoot ∧
        f.Rehashed h.setMerkleRoot
          (fun b => BlockHeader.mk <$> h.record.set merkleRoot (.bytes b))
          fun h' y => h'.merkleRoot = .ok y) ∧
    (∀ i x n, tx.record.Handled → tx.inputPrevout i = .ok (x, n) →
      ∃ input outpoint, tx.input i = .ok input ∧ input.record? prevOut = some outpoint ∧
        ∃ f ∈ outpoint.descriptors, f.name = hash ∧
          f.Rehashed (fun y => tx.setOutpoint i hash (.hash y))
            (fun b => tx.setOutpoint i hash (.bytes b))
            fun tx' y => tx'.inputPrevout i = .ok (y, n)) ∧
    ∀ outpoint (x : Hash256), tx.newInput.record? prevOut = some outpoint →
      outpoint.bytes? hash = some x.bytes →
      ∃ f ∈ outpoint.descriptors, f.name = hash ∧
        (f.encoding ≠ .hash → ∀ y prevIndex script seq,
          tx.addInput y prevIndex script seq =
            .error (.encoding (.mismatch (.hash y.bytes) f.encoding f.name))) :=
  ⟨fun _ hh hroot => BlockHeader.rehashed hh.orderly hroot,
    fun _ _ _ htx hprevout => Transaction.rehashed htx.orderly hprevout,
    fun _ _ houtpoint hread => addInput_refused houtpoint hread⟩

/-- A network that lays out its roots and the hashes of its outpoints as thirty-two bytes. -/
def plainConfig : ProfileConfig where
  layout?
    | .blockHeader => some [{ name := merkleRoot, encoding := .fixedBytes 32 }]
    | .outPoint => some
        [{ name := hash, encoding := .fixedBytes 32 }, { name := index, encoding := .int 4 false }]
    | _ => none

def plain : SchemaSet :=
  { Standard.bitcoin with
    outpoint := ⟨plainConfig.fields .outPoint, by decide⟩
    header := ⟨plainConfig.fields .blockHeader, by decide⟩ }

lemma plain_ofConfig : Profile.ofConfig plainConfig = .ok ⟨"", plain, OpcodeTable.timeLocked⟩ := by
  rfl

def plainSpending : Transaction :=
  ⟨(Record.new plain .transaction).put 1 (.records [.new plain .txIn])⟩

/-- The root of a new header of Bitcoin is stored over. On a network with plain bytes the outpoint
is, but only as bytes, and no input is appended. -/
theorem readable_hash_rewritten_plain :
    (BlockHeader.new Standard.bitcoin).record.Handled ∧
    (∃ h', (BlockHeader.new Standard.bitcoin).setMerkleRoot (sameByte 0x11) = .ok h' ∧
      h'.merkleRoot = .ok (sameByte 0x11)) ∧
    plainSpending.record.Handled ∧ plainSpending.inputPrevout 0 = .ok (Hash256.zero, 0) ∧
    (∃ tx', plainSpending.setOutpoint 0 hash (.bytes (sameByte 0x11).bytes) = .ok tx' ∧
      tx'.inputPrevout 0 = .ok (sameByte 0x11, 0)) ∧
    ∃ e, plainSpending.addInput (sameByte 0x11) 0 .empty finalSequence = .error e := by
  obtain ⟨hoverwritten, hspent, hrefused⟩ :=
    readable_hash_rewritten (BlockHeader.new Standard.bitcoin) plainSpending
  have hheader : (BlockHeader.new Standard.bitcoin).record.Handled := .new _ _
  obtain ⟨f, hf, hname, hrehashed⟩ := hoverwritten Hash256.zero hheader rfl
  have hencoding : ∀ f ∈ (BlockHeader.new Standard.bitcoin).record.descriptors,
      f.name = merkleRoot → f.encoding = .hash := by decide
  have hvector : (Record.new plain .transaction).vector? inputs =
      some ([], fun xs => (Record.new plain .transaction).put 1 (.records xs)) := rfl
  have hinputs : ∀ x ∈ [Record.new plain .txIn], x.Handled := by
    intro x hx
    rw [List.mem_singleton.1 hx]
    exact .new _ _
  have hspending : plainSpending.record.Handled :=
    (Record.Handled.new plain .transaction).vector hinputs hvector
  have hprevout : plainSpending.inputPrevout 0 = .ok (Hash256.zero, 0) := rfl
  obtain ⟨-, -, -, -, _, -, -, houtpoint⟩ := hspent 0 _ _ hspending hprevout
  obtain ⟨f', hf', hname', hrefused⟩ := hrefused (.new plain .outPoint) Hash256.zero rfl rfl
  have hplain : ∀ f ∈ (Record.new plain .outPoint).descriptors,
      f.name = hash → f.encoding ≠ .hash := by decide
  exact ⟨hheader, hrehashed.hash (hencoding f hf hname) (sameByte 0x11), hspending, hprevout,
    houtpoint.bytes (sameByte 0x11), _, hrefused (hplain f' hf' hname') (sameByte 0x11) 0 _ _⟩

/-- **A hash that can be read and not stored over**, neither the root of a new header nor what an
input spends. -/
theorem plain_hash_refused : ∃ p, Profile.ofConfig plainConfig = .ok p ∧
    (BlockHeader.new p.schemas).merkleRoot = .ok Hash256.zero ∧
    (BlockHeader.new p.schemas).setMerkleRoot (sameByte 0x11) = .error
      (.encoding (.mismatch (.hash (sameByte 0x11).bytes) (.fixedBytes 32) merkleRoot)) ∧
    Transaction.deserialize p.schemas plainSpending.serialize = .ok plainSpending ∧
    plainSpending.inputPrevout 0 = .ok (Hash256.zero, 0) ∧
    plainSpending.setOutpoint 0 hash (.hash (sameByte 0x11)) = .error
      (.encoding (.mismatch (.hash (sameByte 0x11).bytes) (.fixedBytes 32) hash)) ∧
    (Transaction.new p.schemas).addInput (sameByte 0x11) 0 .empty finalSequence = .error
      (.encoding (.mismatch (.hash (sameByte 0x11).bytes) (.fixedBytes 32) hash)) :=
  ⟨_, plain_ofConfig, rfl, rfl, rfl, rfl, rfl, rfl⟩

end CoinScript
