import CoinScript.Proofs.Record.Reachable
import CoinScript.Schema.Standard

/-!
The two round trips of records.

Bytes that are accepted are written back as they were. A record that can be come by is read
back from its bytes, whatever follows them; for this the entities of every vector must take up
room, since a count beyond the bytes that are left is refused before any entity is read.
-/

namespace CoinScript

lemma EntityKind.mem_all (k : EntityKind) : k ∈ EntityKind.all := by
  cases k <;> decide

namespace SchemaSet

variable {set : SchemaSet} {k : EntityKind}

/-- Every record of the kind that can be come by takes at least one byte. -/
def Occupied (set : SchemaSet) (k : EntityKind) : Prop :=
  ∀ r, Record.Reachable set r → r.kind = k → r.serialize ≠ []

/-- Entities of which some layout has a vector take up room. -/
def Roomy (set : SchemaSet) : Prop :=
  ∀ k, set.HasVector k → set.Occupied k

theorem occupied_iff : set.Occupied k ↔ set.occupies k = true := by
  constructor
  · intro h
    by_contra hocc
    rw [Bool.not_eq_true] at hocc
    have hk := (Record.new_wellFormed set k).kind_eq
    exact h _ (.new k) hk (Record.new_empty hocc)
  · rintro h r hr rfl
    exact Record.serialize_ne_nil h hr.wellFormed

instance : Decidable (set.Occupied k) := decidable_of_iff _ occupied_iff.symm

lemma hasVector_iff :
    set.HasVector k ↔ ∃ owner ∈ EntityKind.all, ∃ f ∈ set.fields owner, f.encoding = .vector k := by
  unfold HasVector
  simp [EntityKind.mem_all]

instance : Decidable (set.HasVector k) := decidable_of_iff _ hasVector_iff.symm

instance : Decidable set.Roomy :=
  decidable_of_iff (∀ k ∈ EntityKind.all, set.HasVector k → set.Occupied k)
    ⟨fun h k => h k k.mem_all, fun h k _ => h k⟩

end SchemaSet

namespace Record

variable {set : SchemaSet} {k : EntityKind} {r : Record}

/-! ### From bytes -/

/-- **Accepted bytes are written back as they were**, whatever the layouts. -/
theorem serialize_of_deserialize {b : Bytes} (h : deserialize set k b = .ok r) :
    r.serialize = b := by
  obtain ⟨c, hc, hrest⟩ := deserialize_eq_ok.1 h
  obtain ⟨-, hb, -⟩ := Read.record_faithful k _ _ _ hc
  rw [hrest, List.append_nil] at hb
  exact hb.symm

/-- A transaction of version 2 that spends one output into another and has a speech. -/
def spokenBytes : Bytes :=
  [2, 0, 0, 0, 0x10, 0x20, 0x30, 0x40] ++
  [1] ++ List.replicate 32 0xab ++ [1, 0, 0, 0, 1, 0x51, 0xfe, 0xff, 0xff, 0xff] ++
  [1, 0xff, 0xff, 0xff, 0xff, 0xff, 0xff, 0xff, 0xff, 2, 0x52, 0x87] ++
  [0, 0, 0, 0, 2, 0x68, 0x69]

def spoken : Record :=
  let point := mk Standard.clams .outPoint
    [some (.hash ⟨List.replicate 32 0xab, rfl⟩), some (.uint 1)]
  let input := mk Standard.clams .txIn
    [some (.record point), some (.script ⟨[0x51]⟩), some (.uint 0xfffffffe)]
  let output := mk Standard.clams .txOut [some (.int (-1)), some (.script ⟨[0x52, 0x87]⟩)]
  mk Standard.clams .transaction
    [some (.int 2), some (.uint 0x40302010), some (.records [input]), some (.records [output]),
      some (.uint 0), some (.bytes [0x68, 0x69])]

theorem serialize_spoken :
    deserialize Standard.clams .transaction spokenBytes = .ok spoken ∧
      spoken.serialize = spokenBytes := by
  have h : deserialize Standard.clams .transaction spokenBytes = .ok spoken := by rfl
  exact ⟨h, serialize_of_deserialize h⟩

/-! ### From records -/

/-- **A record that can be come by is read back from its bytes**, and what follows them is
left. The number of the bytes is a number of eight bytes, as that of any byte string is. -/
theorem deserialize_serialize (hroom : set.Roomy) (hr : Reachable set r)
    (hlen : r.serialize.length < Nat.pow 256 8) :
    (∀ t, (Read.record set r.kind).run (Cursor.ofBytes (r.serialize ++ t)) =
        .ok (r, ⟨r.serialize.length, t⟩)) ∧
      deserialize set r.kind r.serialize = .ok r := by
  have recovers := Read.record_recovers
    (fun k hk => SchemaSet.occupied_iff.1 (hroom k hk)) r.kind
  have read (t : Bytes) : Read.record set r.kind (Cursor.ofBytes (r.serialize ++ t)) =
      .ok (r, ⟨r.serialize.length, t⟩) :=
    recovers _ _ _ hr.wellFormed hlen ⟨rfl, (Nat.zero_add _).symm⟩
  refine ⟨read, deserialize_eq_ok.2 ⟨⟨r.serialize.length, []⟩, ?_, rfl⟩⟩
  have h := read []
  rwa [List.append_nil] at h

/-- A transaction made anew, with version 2, a speech and one output. -/
def sent : Record :=
  mk Standard.clams .transaction
    [some (.int 2), some (.uint 0), some (.records []),
      some (.records [new Standard.clams .txOut]), some (.uint 0), some (.bytes [0x68, 0x69])]

lemma sent_reachable : Reachable Standard.clams sent := by
  have made : Reachable Standard.clams (new Standard.clams .transaction) := .new _
  have h2 := made.setInt (show setInt _ "version" 2 = .ok _ from rfl)
  have speech := h2.set (by simp [FieldValue.parts])
    (show Record.set _ "clam_speech" (.bytes [0x68, 0x69]) = .ok _ from rfl)
  exact speech.push (show Schema.field? _ "outputs" = some _ from rfl) rfl
    (.new .txOut) (show push? _ "outputs" _ = some _ from rfl)

theorem deserialize_serialize_sent :
    Standard.clams.Roomy ∧ Reachable Standard.clams sent ∧
      sent.serialize.length < Nat.pow 256 8 ∧
      (Read.record Standard.clams .transaction).run (Cursor.ofBytes (sent.serialize ++ [0xff])) =
        .ok (sent, ⟨26, [0xff]⟩) ∧
      deserialize Standard.clams .transaction sent.serialize = .ok sent := by
  have hroom : Standard.clams.Roomy := by decide
  have hlen : sent.serialize.length < Nat.pow 256 8 := by decide
  obtain ⟨read, whole⟩ := deserialize_serialize hroom sent_reachable hlen
  exact ⟨hroom, sent_reachable, hlen, read [0xff], whole⟩

/-! ### Vectors of entities without room -/

/-- Outputs are referred to by nothing at all, and an input is a vector of such references. -/
def pointless : SchemaSet :=
  { Standard.bitcoin with
    outpoint := ⟨[], by decide⟩
    txin := ⟨[{ name := "points", encoding := .vector .outPoint }], by decide⟩ }

def pointed : Record :=
  mk pointless .txIn [some (.records [mk pointless .outPoint []])]

lemma pointed_reachable : Reachable pointless pointed :=
  (Reachable.new .txIn).push (show Schema.field? _ "points" = some _ from rfl) rfl
    (.new .outPoint) (show push? _ "points" _ = some _ from rfl)

/-- **Room in inputs, outputs and transactions is not enough**: other kinds can be elements of
vectors too. -/
theorem pointed_not_recovered :
    (pointless.Occupied .txIn ∧ pointless.Occupied .txOut ∧ pointless.Occupied .transaction) ∧
      Reachable pointless pointed ∧ pointed.kind = .txIn ∧ pointed.serialize = [1] ∧
      deserialize pointless .txIn [1] = .error (.truncated 1 1 0) := by
  refine ⟨by decide, pointed_reachable, rfl, rfl, rfl⟩

end Record

end CoinScript
