import CoinScript.Proofs.Transaction.Parts

/-!
Transactions as inputs and outputs in a frame.

Where the inputs and the outputs stand next to each other, whatever other fields there are, a
well-formed transaction is a frame of other values around two vectors. To change a vector is to
put another one into the frame.
-/

namespace CoinScript

open FieldName

def inputsField : FieldDescriptor := { name := inputs, encoding := .vector .txIn }

def outputsField : FieldDescriptor := { name := outputs, encoding := .vector .txOut }

/-- A field of a transaction beside the two vectors. -/
def FieldDescriptor.Beside (f : FieldDescriptor) : Prop :=
  f.name ≠ inputs ∧ f.name ≠ outputs ∧ f.encoding ≠ .vector .txIn ∧ f.encoding ≠ .vector .txOut

instance (f : FieldDescriptor) : Decidable f.Beside := inferInstanceAs (Decidable (_ ∧ _))

/-- Layouts of a ledger: standard inputs and outputs, and transactions in which the two vectors
stand next to each other, between fields of other names. -/
structure SchemaSet.Ledger (set : SchemaSet) where
  front : List FieldDescriptor
  back : List FieldDescriptor
  parts : set.StandardParts
  fields : set.fields .transaction = front ++ inputsField :: outputsField :: back
  beside : ∀ f ∈ front ++ back, f.Beside
  nodup : ((front ++ back).map (·.name)).Nodup

namespace Standard

def bitcoinLedger : bitcoin.Ledger where
  front := [{ name := version, encoding := .int 4 true, default? := some (.int 1) }]
  back := [{ name := lockTime, encoding := .int 4 false, tags := [.lockTime] }]
  parts := ⟨rfl, rfl, rfl⟩
  fields := rfl
  beside := by decide
  nodup := by decide

def clamsLedger : clams.Ledger where
  front :=
    [{ name := version, encoding := .int 4 true, default? := some (.int 1) },
     { name := "time", encoding := .int 4 false, tags := [.timestamp] }]
  back :=
    [{ name := lockTime, encoding := .int 4 false, tags := [.lockTime] },
     { name := "clam_speech", encoding := .varBytes, presence := .greaterThan version 1,
       tags := [.commentary] }]
  parts := ⟨rfl, rfl, rfl⟩
  fields := rfl
  beside := by decide
  nodup := by decide

end Standard

variable {set : SchemaSet} {c : set.Ledger}

/-- The values of the fields beside the two vectors. -/
structure Frame (c : set.Ledger) where
  front : List (Option FieldValue)
  back : List (Option FieldValue)
  length_front : front.length = c.front.length
  length_back : back.length = c.back.length

namespace Frame

variable (w : Frame c) (ins outs : List Record)

def transaction : Transaction :=
  ⟨.mk set .transaction (w.front ++ some (.records ins) :: some (.records outs) :: w.back)⟩

/-! ### The two vectors -/

lemma schema_fields : (w.transaction ins outs).record.schema.fields =
    c.front ++ inputsField :: outputsField :: c.back := c.fields

lemma find?_fields {p : FieldDescriptor → Bool}
    (hp : ∀ f : FieldDescriptor, f.Beside → p f = false) :
    (w.transaction ins outs).record.schema.fields.find? p =
      (inputsField :: outputsField :: c.back).find? p := by
  have hfront : c.front.find? p = none := by
    rw [List.find?_eq_none]
    intro f hf
    simpa using hp f (c.beside f (List.mem_append_left _ hf))
  rw [schema_fields, List.find?_append, hfront, Option.none_or]

lemma vectorField?_txIn :
    (w.transaction ins outs).record.schema.vectorField? .txIn = some inputs := by
  rw [Schema.vectorField?, find?_fields _ _ _ fun f hf => by simpa using hf.2.2.1]
  rfl

lemma vectorField?_txOut :
    (w.transaction ins outs).record.schema.vectorField? .txOut = some outputs := by
  rw [Schema.vectorField?, find?_fields _ _ _ fun f hf => by simpa using hf.2.2.2]
  rfl

lemma field?_inputs :
    (w.transaction ins outs).record.schema.field? inputs = some inputsField := by
  rw [Schema.field?, find?_fields _ _ _ fun f hf => by simpa using hf.1]
  rfl

lemma field?_outputs :
    (w.transaction ins outs).record.schema.field? outputs = some outputsField := by
  rw [Schema.field?, find?_fields _ _ _ fun f hf => by simpa using hf.2.1]
  rfl

lemma vector?_transaction (i : Nat) {name : String} {rs : List Record}
    (hname : ∀ f : FieldDescriptor, f.Beside → f.name ≠ name)
    (hi : (inputsField :: outputsField :: c.back).findIdx? (·.name = name) = some i)
    (hv : (some (.records ins) :: some (.records outs) :: w.back)[i]? = some (some (.records rs))) :
    (w.transaction ins outs).record.vector? name =
      some (rs, fun xs => .mk set .transaction (w.front ++
        (some (.records ins) :: some (.records outs) :: w.back).set i (some (.records xs)))) := by
  have hfront : c.front.findIdx? (·.name = name) = none := by
    rw [List.findIdx?_eq_none_iff]
    intro f hf
    simpa using hname f (c.beside f (List.mem_append_left _ hf))
  have hplace : (c.front ++ inputsField :: outputsField :: c.back).findIdx? (·.name = name) =
      some (i + w.front.length) := by
    rw [List.findIdx?_append, hfront, hi, Option.none_or, w.length_front, Option.map_some]
  have hvalue : (w.front ++ some (.records ins) :: some (.records outs) :: w.back)[
      i + w.front.length]? = some (some (.records rs)) := by
    rw [List.getElem?_append_right (Nat.le_add_left _ _), Nat.add_sub_cancel, hv]
  unfold transaction
  rw [Record.vector?_mk c.fields _ hplace hvalue]
  simp only [List.set_append_right _ _ (Nat.le_add_left _ _), Nat.add_sub_cancel]

lemma vector?_inputs : (w.transaction ins outs).record.vector? inputs =
    some (ins, fun rs => (w.transaction rs outs).record) :=
  w.vector?_transaction ins outs 0 (fun _ hf => hf.1) rfl rfl

lemma vector?_outputs : (w.transaction ins outs).record.vector? outputs =
    some (outs, fun rs => (w.transaction ins rs).record) :=
  w.vector?_transaction ins outs 1 (fun _ hf => hf.2.1) rfl rfl

/-! ### Editing -/

lemma editInputs (edit : List Record → Except Fault (List Record)) :
    (w.transaction ins outs).editInputs edit = (w.transaction · outs) <$> edit ins := by
  unfold Transaction.editInputs Transaction.editVector Transaction.vectorName
  rw [vectorField?_txIn]
  simp only [Except.ok_bind, vector?_inputs]
  cases edit ins <;> rfl

lemma editOutputs (edit : List Record → Except Fault (List Record)) :
    (w.transaction ins outs).editOutputs edit = (w.transaction ins ·) <$> edit outs := by
  unfold Transaction.editOutputs Transaction.editVector Transaction.vectorName
  rw [vectorField?_txOut]
  simp only [Except.ok_bind, vector?_outputs]
  cases edit outs <;> rfl

/-! ### Names -/

def slots : List (FieldDescriptor × Option FieldValue) :=
  c.front.zip w.front ++ c.back.zip w.back

lemma slots_transaction : (w.transaction ins outs).record.slots = c.front.zip w.front ++
    (inputsField, some (.records ins)) :: (outputsField, some (.records outs)) ::
      c.back.zip w.back := by
  change (set.fields .transaction).zip (w.front ++ _) = _
  rw [c.fields, List.zip_append w.length_front.symm]
  rfl

lemma get?_transaction {name : String} (hin : name ≠ inputs) (hout : name ≠ outputs) :
    (w.transaction ins outs).record.get? name = Record.lookup w.slots name := by
  rw [Record.get?, slots_transaction, Record.lookup_append_cons_of_ne hin.symm,
    Record.lookup_append_cons_of_ne hout.symm]
  rfl

lemma inputs_transaction : (w.transaction ins outs).inputs = ins := by
  have hfront : ∀ p ∈ c.front.zip w.front, p.1.name ≠ inputs := fun p hp =>
    (c.beside p.1 (List.mem_append_left _ (List.of_mem_zip hp).1)).1
  have hget : (w.transaction ins outs).record.get? inputs = some (.records ins) := by
    rw [Record.get?, slots_transaction, Record.lookup_append_of_ne hfront]
    exact Record.lookup_cons_self _ _
  unfold Transaction.inputs Transaction.vector
  rw [vectorField?_txIn, Option.bind_some, Record.records?, hget]
  rfl

lemma outputs_transaction : (w.transaction ins outs).outputs = outs := by
  have hfront : ∀ p ∈ c.front.zip w.front, p.1.name ≠ outputs := fun p hp =>
    (c.beside p.1 (List.mem_append_left _ (List.of_mem_zip hp).1)).2.1
  have hne : inputsField.name ≠ outputs := by decide
  have hget : (w.transaction ins outs).record.get? outputs = some (.records outs) := by
    rw [Record.get?, slots_transaction, Record.lookup_append_of_ne hfront,
      Record.lookup_cons_of_ne hne]
    exact Record.lookup_cons_self _ _
  unfold Transaction.outputs Transaction.vector
  rw [vectorField?_txOut, Option.bind_some, Record.records?, hget]
  rfl

lemma eq_of_get? {w w' : Frame c} {ins outs ins' outs' : List Record}
    (h : ∀ name, name ≠ inputs → name ≠ outputs →
      (w.transaction ins outs).record.get? name = (w'.transaction ins' outs').record.get? name) :
    w = w' := by
  have hslots (w : Frame c) : w.slots = (c.front ++ c.back).zip (w.front ++ w.back) :=
    (List.zip_append w.length_front.symm).symm
  have hlength (w : Frame c) : (w.front ++ w.back).length = (c.front ++ c.back).length := by
    rw [List.length_append, List.length_append, w.length_front, w.length_back]
  have hvalues : w.front ++ w.back = w'.front ++ w'.back := by
    refine Record.eq_of_lookup_eq c.nodup (hlength w) (hlength w') fun f hf => ?_
    obtain ⟨hin, hout, -⟩ := c.beside f hf
    have hname := h f.name hin hout
    rwa [get?_transaction _ _ _ hin hout, get?_transaction _ _ _ hin hout, hslots, hslots] at hname
  have hfront : w.front.length = w'.front.length := w.length_front.trans w'.length_front.symm
  obtain ⟨hf, hb⟩ := List.append_inj hvalues hfront
  rcases w with ⟨front, back, _, _⟩
  cases hf
  cases hb
  rfl

lemma transaction_inj {w w' : Frame c} {ins outs ins' outs' : List Record}
    (h : w.transaction ins outs = w'.transaction ins' outs') :
    w = w' ∧ ins = ins' ∧ outs = outs' := by
  have hvectors : ins = ins' ∧ outs = outs' := by
    constructor
    · rw [← w.inputs_transaction ins outs, h, inputs_transaction]
    · rw [← w.outputs_transaction ins outs, h, outputs_transaction]
  exact ⟨eq_of_get? fun name _ _ => by rw [h], hvectors⟩

/-! ### Well-formed transactions -/

/-- **Well-formed transactions** are inputs and outputs in a frame. -/
lemma exists_of_wellFormed (c : set.Ledger) {tx : Transaction}
    (h : tx.record.WellFormed set .transaction) : ∃ (w : Frame c) (xs : List Input)
      (ys : List Output), tx = w.transaction (xs.map (·.record set)) (ys.map (·.record set)) := by
  rcases tx with ⟨r⟩
  cases h with
  | mk settled =>
    rw [c.fields] at settled
    obtain ⟨front, _, rfl, hfront, settled⟩ := settled.of_append
    obtain ⟨v, _, rfl, hins, settled⟩ := settled.cons_of_always rfl
    obtain ⟨v', back, rfl, houts, settled⟩ := settled.cons_of_always rfl
    obtain ⟨xs, rfl⟩ := Input.exists_of_matches c.parts hins
    obtain ⟨ys, rfl⟩ := Output.exists_of_matches c.parts houts
    exact ⟨⟨front, back, hfront, settled.length_eq⟩, xs, ys, rfl⟩

lemma wellFormed {ins outs : List Record}
    (h : (w.transaction ins outs).record.WellFormed set .transaction) (xs : List Input)
    (ys : List Output) : (w.transaction (xs.map (·.record set))
      (ys.map (·.record set))).record.WellFormed set .transaction := by
  obtain ⟨k, hk, -, hput⟩ := Record.vector?_wellFormed h (w.vector?_inputs ins outs)
  cases hk _ (w.field?_inputs ins outs)
  have h' := hput _ (Input.wellFormed_of_mem c.parts xs)
  obtain ⟨k, hk, -, hput⟩ := Record.vector?_wellFormed h' (w.vector?_outputs _ outs)
  cases hk _ (w.field?_outputs _ outs)
  exact hput _ (Output.wellFormed_of_mem c.parts ys)

lemma serialize_inj (hroom : set.Roomy) {w w' : Frame c} {xs xs' : List Input}
    {ys ys' : List Output}
    (h : (w.transaction (xs.map (·.record set)) (ys.map (·.record set))).record.WellFormed set
      .transaction)
    (h' : (w'.transaction (xs'.map (·.record set)) (ys'.map (·.record set))).record.WellFormed set
      .transaction)
    (hlen : (w.transaction (xs.map (·.record set)) (ys.map (·.record set))).serialize.length <
      Nat.pow 256 8) :
    (w.transaction (xs.map (·.record set)) (ys.map (·.record set))).serialize =
        (w'.transaction (xs'.map (·.record set)) (ys'.map (·.record set))).serialize ↔
      w = w' ∧ xs = xs' ∧ ys = ys' := by
  constructor
  · intro hbytes
    have hrecord := Record.eq_of_serialize_eq hroom h h' hlen hbytes
    obtain ⟨hw, hins, houts⟩ := transaction_inj (congrArg Transaction.mk hrecord)
    exact ⟨hw, Input.map_record_inj.1 hins, Output.map_record_inj.1 houts⟩
  · rintro ⟨rfl, rfl, rfl⟩
    rfl

end Frame

end CoinScript
