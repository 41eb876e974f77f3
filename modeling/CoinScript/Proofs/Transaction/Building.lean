import CoinScript.Profile
import CoinScript.Proofs.Transaction.Accessors

/-!
Appending inputs and outputs.

An input is filled in before it is appended, field by field, so a call that fails leaves the
transaction as it is. A field set later may empty one set earlier, where that one hangs on it: the
sequence comes last, behind the script and the outpoint, and in an outpoint the index comes behind
the hash. And where new inputs nest no outpoint, there is none to fill in. An output has nothing of
the kind, for no field can hang on a script.
-/

namespace CoinScript

open FieldName

/-- In the layout of a kind, the field `name` hangs on the field `source`. -/
def SchemaSet.Hangs (set : SchemaSet) (kind : EntityKind) (name source : String) : Prop :=
  ∃ f ∈ set.fields kind, f.name = name ∧ f.HangsOn (set.fields kind) source

namespace Record

variable {r r' x : Record} {name other : String} {u v : FieldValue}

/-! ### What assignments keep -/

lemma Assigned.kept (h : r.Assigned name u r') (hne : other ≠ name) (hv : r.get? other = some v) :
    r'.get? other = some v ∨ r'.get? other = none ∧ r.schemas.Hangs r.kind other name := by
  obtain ⟨g, hg, rfl⟩ := exists_of_get? hv
  by_cases hon : g.HangsOn r.descriptors name
  · rw [h.hanging g hg hne, hv]
    split
    · exact .inl rfl
    · exact .inr ⟨rfl, g, hg, rfl, hon⟩
  · exact .inl ((h.elsewhere g hg hne hon).trans hv)

lemma kept_of_set_script (hr : r.Tidy) {s : Script} (h : r.set name (.script s) = .ok r') :
    r.Assigned name (.script s) r' ∧
      ∀ other v, other ≠ name → r.get? other = some v → r'.get? other = some v := by
  obtain ⟨f, hf, rfl, u, hu, hassigned⟩ := assigned_of_set hr.toShaped h
  obtain ⟨-, rfl⟩ := hu.of_script
  refine ⟨hassigned, fun other v hne hv => ?_⟩
  exact ((hassigned.replaced hf (hu.isInt_eq_false rfl)).elsewhere other hne).trans hv

lemma kept_of_set_int (hr : r.Tidy) {n : Int} (hn : v.int? = some n) (h : r.set name v = .ok r') :
    r'.int? name = some n ∧ r'.kind = r.kind ∧ r'.schemas = r.schemas ∧
      ∀ other w, other ≠ name → r.get? other = some w →
        r'.get? other = some w ∨ r'.get? other = none ∧ r.schemas.Hangs r.kind other name := by
  obtain ⟨f, -, -, u, hu, hassigned⟩ := assigned_of_set hr.toShaped h
  refine ⟨?_, hassigned.kind, hassigned.schemas, fun other w hne hw => hassigned.kept hne hw⟩
  rw [int?, hassigned.here, Option.bind_some, hu.int?_eq hn]

/-! ### Outpoints -/

def fillOutpoint (r : Record) (prevHash : Hash256) (prevIndex : Nat) : Except Fault Record := do
  let r ← r.set hash (.hash prevHash)
  r.set index (.uint prevIndex)

lemma fillOutpoint_eq_ok (hr : r.Tidy) {prevHash : Hash256} {prevIndex : Nat}
    (h : r.fillOutpoint prevHash prevIndex = .ok r') :
    r'.kind = r.kind ∧ r'.int? index = some prevIndex ∧ (r'.bytes? hash = some prevHash.bytes ∨
      r'.bytes? hash = none ∧ r.schemas.Hangs r.kind hash index) := by
  obtain ⟨r₁, h₁, h₂⟩ := Except.bind_eq_ok.1 h
  obtain ⟨f, -, -, u, hu, hassigned⟩ := assigned_of_set hr.toShaped h₁
  obtain ⟨-, rfl⟩ := hu.of_hash
  obtain ⟨hint, hkind, -, hkept⟩ := kept_of_set_int (tidy_of_set hr h₁) rfl h₂
  refine ⟨hkind.trans hassigned.kind, hint, ?_⟩
  rw [← hassigned.kind, ← hassigned.schemas]
  rcases hkept hash _ (by decide) hassigned.here with hhash | ⟨hhash, hhangs⟩
  · exact .inl (by rw [bytes?, hhash]; rfl)
  · exact .inr ⟨by rw [bytes?, hhash]; rfl, hhangs⟩

/-! ### Inputs -/

/-- An input with its outpoint, if it nests one, its script and its sequence set in turn. -/
def fillInput (r : Record) (prevHash : Hash256) (prevIndex : Nat) (script : Script) (seq : Nat) :
    Except Fault Record := do
  let r ←
    match r.nested? prevOut with
    | some (outpoint, put) => put <$> outpoint.fillOutpoint prevHash prevIndex
    | none => pure r
  let r ← r.set scriptSig (.script script)
  r.set sequence (.uint seq)

lemma fillInput_of_no_outpoint (h : r.record? prevOut = none) (prevHash prevHash' : Hash256)
    (prevIndex prevIndex' : Nat) (script : Script) (seq : Nat) :
    r.fillInput prevHash prevIndex script seq = r.fillInput prevHash' prevIndex' script seq := by
  have hnested : r.nested? prevOut = none := by
    rw [← nested?_map_fst, Option.map_eq_none_iff] at h
    exact h
  rw [fillInput, fillInput, hnested]

lemma set_script_sequence (hr : r.Tidy) {script : Script} {seq : Nat}
    (h : (r.set scriptSig (.script script) >>= (·.set sequence (.uint seq))) = .ok x) :
    x.int? sequence = some (seq : Int) ∧
      (x.script? scriptSig = some script ∨
        x.script? scriptSig = none ∧ r.schemas.Hangs r.kind scriptSig sequence) ∧
      ∀ o, r.get? prevOut = some (.record o) → x.record? prevOut = some o ∨
        x.record? prevOut = none ∧ r.schemas.Hangs r.kind prevOut sequence := by
  obtain ⟨r₁, h₁, h₂⟩ := Except.bind_eq_ok.1 h
  obtain ⟨hassigned, hkept⟩ := kept_of_set_script hr h₁
  obtain ⟨hint, -, -, hkept'⟩ := kept_of_set_int (tidy_of_set hr h₁) rfl h₂
  rw [hassigned.kind, hassigned.schemas] at hkept'
  refine ⟨hint, ?_, ?_⟩
  · rcases hkept' scriptSig _ (by decide) hassigned.here with hscript | ⟨hscript, hhangs⟩
    · exact .inl (by rw [script?, hscript]; rfl)
    · exact .inr ⟨by rw [script?, hscript]; rfl, hhangs⟩
  · intro o ho
    rcases hkept' prevOut _ (by decide) (hkept prevOut _ (by decide) ho) with hout | ⟨hout, hhangs⟩
    · exact .inl (by rw [record?, hout]; rfl)
    · exact .inr ⟨by rw [record?, hout]; rfl, hhangs⟩

lemma fillInput_eq_ok (hr : r.WellFormed r.schemas r.kind) {prevHash : Hash256} {prevIndex : Nat}
    {script : Script} {seq : Nat} (h : r.fillInput prevHash prevIndex script seq = .ok x) :
    x.int? sequence = some (seq : Int) ∧
      (x.script? scriptSig = some script ∨
        x.script? scriptSig = none ∧ r.schemas.Hangs r.kind scriptSig sequence) ∧
      ∀ o, r.record? prevOut = some o → ∃ o', o'.int? index = some (prevIndex : Int) ∧
        (x.record? prevOut = some o' ∨
          x.record? prevOut = none ∧ r.schemas.Hangs r.kind prevOut sequence) ∧
        (o'.bytes? hash = some prevHash.bytes ∨
          o'.bytes? hash = none ∧ r.schemas.Hangs o.kind hash index) := by
  cases hnested : r.nested? prevOut with
  | none =>
    rw [fillInput, hnested] at h
    obtain ⟨hseq, hscript, -⟩ := set_script_sequence hr.tidy h
    refine ⟨hseq, hscript, fun o ho => ?_⟩
    rw [← nested?_map_fst, hnested] at ho
    cases ho
  | some place =>
    obtain ⟨o, put⟩ := place
    have ho : r.record? prevOut = some o := by rw [← nested?_map_fst, hnested, Option.map_some]
    rw [fillInput, hnested] at h
    obtain ⟨r₁, h₁, h⟩ := Except.bind_eq_ok.1 h
    cases hfill : o.fillOutpoint prevHash prevIndex with
    | error e =>
      rw [hfill] at h₁
      cases h₁
    | ok o' =>
      rw [hfill] at h₁
      cases h₁
      have hwf : o.WellFormed r.schemas o.kind := (nested?_wellFormed hr hnested).1
      obtain ⟨hkind, hindex, hhash⟩ := fillOutpoint_eq_ok hwf.tidy hfill
      rw [hwf.schemas_eq] at hhash
      have hput : (put o').get? prevOut = some (.record o') := by
        rw [get?_of_nested? hnested, if_pos rfl]
      obtain ⟨i, -, -, rfl⟩ := nested?_eq_some hnested
      -- the outpoint has been put back, and the fields set after it leave it there unless they
      -- hide it
      obtain ⟨hseq, hscript, hout⟩ :=
        set_script_sequence (tidy_of_nested? hr.tidy hnested hkind) h
      refine ⟨hseq, hscript, fun o₁ ho₁ => ⟨o', hindex, hout o' hput, ?_⟩⟩
      cases ho.symm.trans ho₁
      exact hhash

/-! ### Outputs -/

def fillOutput (r : Record) (amount : Int) (script : Script) : Except Fault Record := do
  let r ← r.set value (.int amount)
  r.set scriptPubKey (.script script)

lemma fillOutput_eq_ok (hr : r.Tidy) {amount : Int} {script : Script}
    (h : r.fillOutput amount script = .ok x) :
    x.int? value = some amount ∧ x.script? scriptPubKey = some script := by
  obtain ⟨r₁, h₁, h₂⟩ := Except.bind_eq_ok.1 h
  obtain ⟨f, -, -, u, hu, hassigned⟩ := assigned_of_set hr.toShaped h₁
  obtain ⟨hscript, hkept⟩ := kept_of_set_script (tidy_of_set hr h₁) h₂
  constructor
  · rw [int?, hkept value u (by decide) hassigned.here, Option.bind_some, hu.int?_eq rfl]
  · rw [script?, hscript.here]
    rfl

end Record

namespace Transaction

variable {tx tx' : Transaction} {k : EntityKind} {x : Record}

/-! ### Appending -/

/-- A record behind the others of its vector, and nothing else changed. -/
structure Appended (tx : Transaction) (k : EntityKind) (x : Record) (tx' : Transaction) : Prop where
  schemas : tx'.record.schemas = tx.record.schemas
  kind : tx'.record.kind = tx.record.kind
  here : tx'.vector k = tx.vector k ++ [x]
  others : ∀ k', k' ≠ k → tx'.vector k' = tx.vector k'
  elsewhere : ∀ name, tx.record.schema.vectorField? k ≠ some name →
    tx'.record.get? name = tx.record.get? name

lemma vectorField?_ne {s : Schema k} {k₁ k₂ : EntityKind} {name : String}
    (h₁ : s.vectorField? k₁ = some name) (h₂ : s.vectorField? k₂ = some name) : k₁ = k₂ := by
  obtain ⟨f, hf, rfl, he₁⟩ := Schema.field_of_vectorField? h₁
  obtain ⟨g, hg, hname, he₂⟩ := Schema.field_of_vectorField? h₂
  cases Schema.eq_of_mem hg hf hname
  exact FieldEncoding.vector.inj (he₁.symm.trans he₂)

lemma vector_of_vector? {name : String} {rs : List Record} {put : List Record → Record}
    (hname : tx.record.schema.vectorField? k = some name)
    (h : tx.record.vector? name = some (rs, put)) : tx.vector k = rs := by
  rw [vector, hname, Option.bind_some, ← Record.vector?_map_fst, h]
  rfl

lemma exists_vector? {i : Nat} {r : Record} (h : (tx.vector k)[i]? = some r) :
    ∃ name rs put, tx.record.schema.vectorField? k = some name ∧
      tx.record.vector? name = some (rs, put) ∧ rs[i]? = some r := by
  cases hname : tx.record.schema.vectorField? k with
  | none => simp [vector, hname] at h
  | some name =>
    cases hvector : tx.record.vector? name with
    | none =>
      have hnone : tx.record.records? name = none := by
        rw [← Record.vector?_map_fst, hvector]
        rfl
      simp [vector, hname, hnone] at h
    | some place =>
      obtain ⟨rs, put⟩ := place
      rw [vector_of_vector? hname hvector] at h
      exact ⟨name, rs, put, rfl, hvector, h⟩

lemma vector_put {name : String} {rs : List Record} {put : List Record → Record}
    (hname : tx.record.schema.vectorField? k = some name)
    (h : tx.record.vector? name = some (rs, put)) (xs : List Record) :
    (mk (put xs)).vector k = xs := by
  have hget := Record.get?_of_vector? h xs
  obtain ⟨i, -, -, rfl⟩ := Record.vector?_eq_some h
  have hname' : (mk (tx.record.put i (.records xs))).record.schema.vectorField? k = some name :=
    hname
  rw [vector, hname', Option.bind_some, Record.records?, hget, if_pos rfl]
  rfl

lemma appended_put {name : String} {rs : List Record} {put : List Record → Record}
    (hname : tx.record.schema.vectorField? k = some name)
    (h : tx.record.vector? name = some (rs, put)) (x : Record) :
    tx.Appended k x ⟨put (rs ++ [x])⟩ := by
  have hget := Record.get?_of_vector? h (rs ++ [x])
  have hhere : (mk (put (rs ++ [x]))).vector k = tx.vector k ++ [x] := by
    rw [vector_put hname h, vector_of_vector? hname h]
  obtain ⟨i, -, -, rfl⟩ := Record.vector?_eq_some h
  refine ⟨rfl, rfl, hhere, ?_, ?_⟩
  · intro k' hk
    have hsame : (mk (tx.record.put i (.records (rs ++ [x])))).record.schema.vectorField? k' =
        tx.record.schema.vectorField? k' := rfl
    rw [vector, vector, hsame]
    cases hname' : tx.record.schema.vectorField? k' with
    | none => rfl
    | some other =>
      -- vectors of different kinds have different names
      have hne : other ≠ name := by
        rintro rfl
        exact hk (vectorField?_ne hname' hname)
      rw [Option.bind_some, Option.bind_some, Record.records?, hget, if_neg hne]
      rfl
  · intro other hother
    rw [hget, if_neg]
    rintro rfl
    exact hother hname

lemma appended_of_editVector (h : tx.editVector k (fun rs => return rs ++ [x]) = .ok tx') :
    tx.Appended k x tx' := by
  obtain ⟨name, hname, h⟩ := Except.bind_eq_ok.1 h
  have hfield : tx.record.schema.vectorField? k = some name := by
    unfold vectorName at hname
    split at hname
    · rename_i hfield
      cases hname
      exact hfield
    · cases hname
  split at h
  · rename_i rs put hvector
    cases h
    exact appended_put hfield hvector x
  · cases h

/-! ### In place -/

/-- Pushes a record onto the vector of the transaction at hand; the answer is its place. -/
def push (k : EntityKind) (x : Record) : InPlace Fault Transaction Nat := do
  let tx ← get
  let name ← ofExcept (tx.vectorName k)
  match tx.record.vector? name with
  | some (rs, put) =>
    modify fun _ => ⟨put (rs ++ [x])⟩
    return (rs ++ [x]).length - 1
  | none => throw (.schema (.absent name))

/-- Fills in an input and pushes it onto those of the transaction at hand. -/
def appendInput (prevHash : Hash256) (prevIndex : Nat) (script : Script) (seq : Nat) :
    InPlace Fault Transaction Nat := do
  let tx ← get
  let x ← ofExcept (tx.newInput.fillInput prevHash prevIndex script seq)
  push .txIn x

/-- Fills in an output and pushes it onto those of the transaction at hand. -/
def appendOutput (amount : Int) (script : Script) : InPlace Fault Transaction Nat := do
  let tx ← get
  let x ← ofExcept (tx.newOutput.fillOutput amount script)
  push .txOut x

lemma push_on (tx : Transaction) (k : EntityKind) (x : Record) : (push k x).on tx =
    match tx.editVector k (fun rs => return rs ++ [x]) with
    | .ok tx' => (.ok (tx.vector k).length, tx')
    | .error e => (.error e, tx) := by
  unfold push editVector vectorName
  rw [InPlace.on_get_bind]
  cases hname : tx.record.schema.vectorField? k with
  | none => rfl
  | some name =>
    rw [InPlace.on_ok_bind, Except.ok_bind]
    cases hvector : tx.record.vector? name with
    | none => rfl
    | some place =>
      obtain ⟨rs, put⟩ := place
      rw [vector_of_vector? hname hvector]
      simp only [InPlace.on_modify_bind, InPlace.on_pure, List.length_append, List.length_singleton,
        Nat.add_sub_cancel]
      rfl

lemma addInput_eq (tx : Transaction) (prevHash : Hash256) (prevIndex : Nat) (script : Script)
    (seq : Nat) : tx.addInput prevHash prevIndex script seq =
      tx.newInput.fillInput prevHash prevIndex script seq >>= fun x =>
        tx.editInputs fun rs => return rs ++ [x] := by
  unfold addInput Record.fillInput Record.fillOutpoint
  cases tx.newInput.nested? prevOut with
  | none => simp only [bind_assoc]
  | some place => simp only [bind_assoc, map_eq_pure_bind]

lemma addOutput_eq (tx : Transaction) (amount : Int) (script : Script) :
    tx.addOutput amount script = tx.newOutput.fillOutput amount script >>= fun x =>
      tx.editOutputs fun rs => return rs ++ [x] := by
  unfold addOutput Record.fillOutput
  rw [bind_assoc]

lemma appendInput_on (tx : Transaction) (prevHash : Hash256) (prevIndex : Nat) (script : Script)
    (seq : Nat) : (appendInput prevHash prevIndex script seq).on tx =
      match tx.addInput prevHash prevIndex script seq with
      | .ok tx' => (.ok tx.inputs.length, tx')
      | .error e => (.error e, tx) := by
  rw [addInput_eq]
  unfold appendInput
  rw [InPlace.on_get_bind]
  cases tx.newInput.fillInput prevHash prevIndex script seq with
  | error e => rfl
  | ok x =>
    rw [InPlace.on_ok_bind, push_on]
    rfl

lemma appendOutput_on (tx : Transaction) (amount : Int) (script : Script) :
    (appendOutput amount script).on tx =
      match tx.addOutput amount script with
      | .ok tx' => (.ok tx.outputs.length, tx')
      | .error e => (.error e, tx) := by
  rw [addOutput_eq]
  unfold appendOutput
  rw [InPlace.on_get_bind]
  cases tx.newOutput.fillOutput amount script with
  | error e => rfl
  | ok x =>
    rw [InPlace.on_ok_bind, push_on]
    rfl

/-! ### Reading back -/

lemma Appended.getElem? (h : tx.Appended k x tx') :
    (tx'.vector k)[(tx.vector k).length]? = some x := by
  rw [h.here, List.getElem?_concat_length]

lemma inputScript_of_input {i : Nat} (hi : tx.inputs[i]? = some x) :
    tx.inputScript i = required scriptSig (x.script? scriptSig) := by
  unfold inputScript
  rw [input_eq_ok.2 hi, Except.ok_bind]

lemma outputScript_of_output {i : Nat} (hi : tx.outputs[i]? = some x) :
    tx.outputScript i = required scriptPubKey (x.script? scriptPubKey) := by
  unfold outputScript
  rw [output_eq_ok.2 hi, Except.ok_bind]

lemma inputPrevout_missing {i : Nat} (hi : tx.inputs[i]? = some x) :
    (x.record? prevOut = none → tx.inputPrevout i = .error (.schema (.missing prevOut))) ∧
      ∀ o, x.record? prevOut = some o → o.bytes? hash = none →
        tx.inputPrevout i = .error (.schema (.missing hash)) := by
  unfold inputPrevout
  rw [input_eq_ok.2 hi, Except.ok_bind]
  constructor
  · intro hnone
    rw [hnone]
    rfl
  · intro o ho hhash
    rw [required_eq_ok.2 ho, Except.ok_bind, hhash]
    rfl

lemma kind_of_outpoint {set : SchemaSet} {o : Record} {name : String}
    (h : (Record.new set .txIn).record? name = some o) : o.kind = .outPoint := by
  obtain ⟨v, hv, hrecord⟩ := Option.bind_eq_some_iff.1 h
  have hwf := Record.new_wellFormed set .txIn
  obtain ⟨f, hf, rfl⟩ := Record.exists_of_get? hv
  have hmem : f ∈ set.fields .txIn := by
    rwa [Record.descriptors, hwf.schemas_eq, hwf.kind_eq] at hf
  have hm := hwf.matches_of_get? hmem hv
  have hbelow := set.below .txIn f hmem
  generalize f.encoding = e at hm hbelow
  cases hm with
  | @nested k _ wf =>
    cases hrecord
    have hrank := hbelow k rfl
    rw [wf.kind_eq]
    cases k with
    | outPoint => rfl
    | _ => exact absurd hrank (by decide)
  | _ => cases hrecord

variable {prevHash : Hash256} {prevIndex seq : Nat} {script : Script} {amount : Int}

/-- **Appending an input** changes nothing else, and the input reads as it was given, up to what
hangs on a field set later. -/
lemma addInput_eq_ok (hindex : prevIndex < 0x100000000) (hseq : seq < 0x100000000)
    (h : tx.addInput prevHash prevIndex script seq = .ok tx') :
    (∃ x, tx.Appended .txIn x tx') ∧ tx'.inputSequence tx.inputs.length = .ok seq ∧
      (tx'.inputScript tx.inputs.length = .ok script ∨
        tx'.inputScript tx.inputs.length = .error (.schema (.missing scriptSig)) ∧
          tx.record.schemas.Hangs .txIn scriptSig sequence) ∧
      ((tx.newInput.record? prevOut).isSome = true →
        tx'.inputPrevout tx.inputs.length = .ok (prevHash, prevIndex) ∨
        tx'.inputPrevout tx.inputs.length = .error (.schema (.missing prevOut)) ∧
          tx.record.schemas.Hangs .txIn prevOut sequence ∨
        tx'.inputPrevout tx.inputs.length = .error (.schema (.missing hash)) ∧
          tx.record.schemas.Hangs .outPoint hash index) := by
  rw [addInput_eq] at h
  obtain ⟨x, hx, hedit⟩ := Except.bind_eq_ok.1 h
  have happended : tx.Appended .txIn x tx' := appended_of_editVector hedit
  have hplace : tx'.inputs[tx.inputs.length]? = some x := happended.getElem?
  have hwf := Record.new_wellFormed tx.record.schemas .txIn
  have hkind : tx.newInput.kind = .txIn := hwf.kind_eq
  have hschemas : tx.newInput.schemas = tx.record.schemas := hwf.schemas_eq
  have hnew : tx.newInput.WellFormed tx.newInput.schemas tx.newInput.kind := by
    rw [hkind, hschemas]
    exact hwf
  obtain ⟨hxseq, hxscript, hxout⟩ := Record.fillInput_eq_ok hnew hx
  rw [hkind, hschemas] at hxscript
  refine ⟨⟨x, happended⟩, ?_, ?_, ?_⟩
  · exact (inputSequence_eq_ok hplace hxseq).2 ⟨rfl, hseq⟩
  · rw [inputScript_of_input hplace]
    rcases hxscript with hscript | ⟨hscript, hhangs⟩
    · exact .inl (required_eq_ok.2 hscript)
    · rw [hscript]
      exact .inr ⟨rfl, hhangs⟩
  · intro hsome
    obtain ⟨o, ho⟩ := Option.isSome_iff_exists.1 hsome
    obtain ⟨o', hoindex, hprevOut, hhash⟩ := hxout o ho
    rw [hkind, hschemas] at hprevOut
    rw [hschemas, kind_of_outpoint ho] at hhash
    obtain ⟨hmissing, hmissingHash⟩ := inputPrevout_missing hplace
    rcases hprevOut with hprevOut | ⟨hprevOut, hhangs⟩
    · rcases hhash with hhash | ⟨hhash, hhangs⟩
      · exact .inl ((inputPrevout_of_input hplace hprevOut hoindex _ _).2
          ⟨hhash, word_eq_ok.2 ⟨rfl, hindex⟩⟩)
      · exact .inr (.inr ⟨hmissingHash o' hprevOut hhash, hhangs⟩)
    · exact .inr (.inl ⟨hmissing hprevOut, hhangs⟩)

lemma addOutput_eq_ok
    (hamount : -0x8000000000000000 ≤ amount ∧ amount < 0x8000000000000000)
    (h : tx.addOutput amount script = .ok tx') :
    (∃ x, tx.Appended .txOut x tx') ∧ tx'.outputValue tx.outputs.length = .ok amount ∧
      tx'.outputScript tx.outputs.length = .ok script := by
  rw [addOutput_eq] at h
  obtain ⟨x, hx, hedit⟩ := Except.bind_eq_ok.1 h
  have happended : tx.Appended .txOut x tx' := appended_of_editVector hedit
  have hplace : tx'.outputs[tx.outputs.length]? = some x := happended.getElem?
  obtain ⟨hvalue, hscript⟩ :=
    Record.fillOutput_eq_ok (Record.new_wellFormed tx.record.schemas .txOut).tidy hx
  refine ⟨⟨x, happended⟩, ?_, ?_⟩
  · rw [outputValue_of_output hplace hvalue, Int.bmod_eq_of_le hamount.1 hamount.2]
  · rw [outputScript_of_output hplace]
    exact required_eq_ok.2 hscript

/-- **Building is all or nothing.** A call that fails leaves the transaction as it is, and one that
succeeds puts one record behind the others of its vector and changes nothing else. An output reads
as it was given. So does an input, but for a field that hangs on one set later, which may be gone,
and for the outpoint where new inputs nest none: then the input is the same whatever it was to
spend. -/
theorem building_all_or_nothing (tx : Transaction) (prevHash : Hash256) (script : Script)
    (hindex : prevIndex < 0x100000000) (hseq : seq < 0x100000000)
    (hamount : -0x8000000000000000 ≤ amount ∧ amount < 0x8000000000000000) :
    ((appendInput prevHash prevIndex script seq).on tx =
      match tx.addInput prevHash prevIndex script seq with
      | .ok tx' => (.ok tx.inputs.length, tx')
      | .error e => (.error e, tx)) ∧
    ((appendOutput amount script).on tx = match tx.addOutput amount script with
      | .ok tx' => (.ok tx.outputs.length, tx')
      | .error e => (.error e, tx)) ∧
    (∀ tx', tx.addInput prevHash prevIndex script seq = .ok tx' →
      (∃ x, tx.Appended .txIn x tx') ∧ tx'.inputSequence tx.inputs.length = .ok seq ∧
      (tx'.inputScript tx.inputs.length = .ok script ∨
        tx'.inputScript tx.inputs.length = .error (.schema (.missing scriptSig)) ∧
          tx.record.schemas.Hangs .txIn scriptSig sequence) ∧
      ((tx.newInput.record? prevOut).isSome = true →
        tx'.inputPrevout tx.inputs.length = .ok (prevHash, prevIndex) ∨
        tx'.inputPrevout tx.inputs.length = .error (.schema (.missing prevOut)) ∧
          tx.record.schemas.Hangs .txIn prevOut sequence ∨
        tx'.inputPrevout tx.inputs.length = .error (.schema (.missing hash)) ∧
          tx.record.schemas.Hangs .outPoint hash index)) ∧
    (tx.newInput.record? prevOut = none → ∀ h i,
      tx.addInput h i script seq = tx.addInput prevHash prevIndex script seq) ∧
    ∀ tx', tx.addOutput amount script = .ok tx' → (∃ x, tx.Appended .txOut x tx') ∧
      tx'.outputValue tx.outputs.length = .ok amount ∧
      tx'.outputScript tx.outputs.length = .ok script := by
  refine ⟨appendInput_on tx prevHash prevIndex script seq, appendOutput_on tx amount script,
    fun tx' h => addInput_eq_ok hindex hseq h, ?_, fun tx' h => addOutput_eq_ok hamount h⟩
  intro hnone h i
  rw [addInput_eq, addInput_eq, Record.fillInput_of_no_outpoint hnone h prevHash i prevIndex]

theorem building_bitcoin : 7 < 0x100000000 ∧
    (∃ tx', (new Standard.bitcoin).addInput Hash256.zero 7 .empty 5 = .ok tx' ∧
      tx'.inputSequence 0 = .ok 5) ∧
    ∃ tx', (new Standard.bitcoin).addOutput 9 .empty = .ok tx' ∧ tx'.outputValue 0 = .ok 9 := by
  have hindex : 7 < 0x100000000 := by decide
  have hseq : 5 < 0x100000000 := by decide
  have hamount : (-0x8000000000000000 : Int) ≤ 9 ∧ (9 : Int) < 0x8000000000000000 := by decide
  obtain ⟨-, -, hinput, -, houtput⟩ := building_all_or_nothing (new Standard.bitcoin) Hash256.zero
    .empty hindex hseq hamount
  exact ⟨hindex, ⟨_, rfl, (hinput _ rfl).2.1⟩, _, rfl, (houtput _ rfl).2.1⟩

/-! ### An outpoint that comes too late -/

/-- A network whose inputs have an outpoint only if their sequence is not zero. -/
def lateConfig : ProfileConfig where
  layout?
    | .txIn => some
        [{ name := sequence, encoding := .int 4 false },
         { name := prevOut, encoding := .nested .outPoint, presence := .greaterThan sequence 0 },
         { name := scriptSig, encoding := .script }]
    | _ => none

def late : SchemaSet :=
  { Standard.bitcoin with txin := ⟨lateConfig.fields .txIn, by decide⟩ }

lemma late_ofConfig : Profile.ofConfig lateConfig = .ok ⟨"", late, OpcodeTable.timeLocked⟩ := by
  rfl

def sameByte (b : UInt8) : Hash256 := ⟨List.replicate 32 b, rfl⟩

/-- **An input that spends something else** than what it was given: when the outpoint appears, it is
too late to set it. -/
theorem late_misbuilt : ∃ p tx', Profile.ofConfig lateConfig = .ok p ∧
    (new p.schemas).addInput (sameByte 0x11) 0 .empty 5 = .ok tx' ∧
    tx'.inputPrevout 0 = .ok (Hash256.zero, 0xffffffff) ∧
    (sameByte 0x11, 0) ≠ (Hash256.zero, 0xffffffff) := by
  refine ⟨_, _, late_ofConfig, rfl, rfl, by decide⟩

end Transaction

end CoinScript
