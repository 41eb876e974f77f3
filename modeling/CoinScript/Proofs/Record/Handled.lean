import CoinScript.Proofs.Record.Assignment

/-!
Records with anything put into them.

A caller may put a record into another where one stands, of whatever kind and network, and push it
onto a vector of other records. Assignments still find every slot filled as the conditions tell, in
the record and in all records that it holds, for a condition looks at integers only. Nor do values
change their forms: where a record stood a record stands, though perhaps one of another kind.
-/

namespace CoinScript

/-- `e.Forms v`: the value has the form of the encoding. What records hold does not matter, and not
even their kind. -/
inductive FieldEncoding.Forms : FieldEncoding → FieldValue → Prop
  | int (w : Nat) (n : Int) : Forms (.int w true) (.int n)
  | uint (w n : Nat) : Forms (.int w false) (.uint n)
  | fixedBytes (b : Bytes) : Forms (.fixedBytes b.length) (.bytes b)
  | varBytes (b : Bytes) : Forms .varBytes (.bytes b)
  | script (s : Script) : Forms .script (.script s)
  | hash (h : Hash256) : Forms .hash (.hash h)
  | nested (k : EntityKind) (x : Record) : Forms (.nested k) (.record x)
  | vector (k : EntityKind) (xs : List Record) : Forms (.vector k) (.records xs)

namespace FieldEncoding

variable {e : FieldEncoding} {u v : FieldValue}

lemma Stores.forms (h : e.Stores v u) : e.Forms u := by
  cases h with
  | int => exact .int _ _
  | uint => exact .uint _ _
  | fixedBytes b => exact .fixedBytes b
  | varBytes b => exact .varBytes b
  | script s => exact .script s
  | hash h => exact .hash h
  | hashBytes => exact .hash _
  | nested x => exact .nested _ x
  | vector => exact .vector _ _

lemma Forms.another_record {x : Record} (h : e.Forms (.record x)) (y : Record) :
    e.Forms (.record y) := by
  cases h with
  | nested k => exact .nested k y

lemma Forms.other_records {xs : List Record} (h : e.Forms (.records xs)) (ys : List Record) :
    e.Forms (.records ys) := by
  cases h with
  | vector k => exact .vector k ys

end FieldEncoding

namespace Record

/-- Records whose slots are filled as the conditions tell, with values of the forms of their fields,
and so for all the records that they hold. -/
inductive Orderly : Record → Prop
  | mk {r : Record} (shaped : r.Shaped)
      (formed : ∀ f ∈ r.descriptors, ∀ v, r.get? f.name = some v → f.encoding.Forms v)
      (parts : ∀ f ∈ r.descriptors, ∀ v, r.get? f.name = some v → ∀ x ∈ v.parts, Orderly x) :
      Orderly r

/-- The records that a caller can come by: new ones, those that were read, those that others hold,
and what is made of records by assigning to them and by putting any others in place of those that
they hold. -/
inductive Handled : Record → Prop
  | new (set : SchemaSet) (k : EntityKind) : Handled (new set k)
  | read {set k c r c'} (h : Read.record set k c = .ok (r, c')) : Handled r
  | set {r name v r'} (hr : Handled r) (hv : ∀ x ∈ v.parts, Handled x)
      (h : r.set name v = .ok r') : Handled r'
  | setInt {r name n r'} (hr : Handled r) (h : r.setInt name n = .ok r') : Handled r'
  /-- A record held by another. -/
  | part {r name v x} (hr : Handled r) (h : r.get? name = some v) (hx : x ∈ v.parts) : Handled x
  /-- Another record is put where a nested one stands. -/
  | nested {r name inner put x} (hr : Handled r) (hx : Handled x)
      (h : r.nested? name = some (inner, put)) : Handled (put x)
  /-- Other records are put where a vector stands. -/
  | vector {r name xs put ys} (hr : Handled r) (hys : ∀ y ∈ ys, Handled y)
      (h : r.vector? name = some (xs, put)) : Handled (put ys)

variable {r r' : Record} {f : FieldDescriptor} {i : Nat} {name : String} {u v : FieldValue}

lemma Orderly.shaped (h : r.Orderly) : r.Shaped := by
  cases h with
  | mk shaped _ _ => exact shaped

lemma Orderly.formed (h : r.Orderly) (hf : f ∈ r.descriptors) (hv : r.get? f.name = some v) :
    f.encoding.Forms v := by
  cases h with
  | mk _ formed _ => exact formed f hf v hv

lemma Orderly.part (h : r.Orderly) (hv : r.get? name = some v) : ∀ x ∈ v.parts, x.Orderly := by
  obtain ⟨f, hf, rfl⟩ := exists_of_get? hv
  cases h with
  | mk _ _ parts => exact parts f hf v hv

lemma Orderly.record_part {x : Record} (h : r.Orderly) (hx : r.record? name = some x) :
    x.Orderly := by
  obtain ⟨v, hv, hrecord⟩ := Option.bind_eq_some_iff.1 hx
  cases v with
  | record y =>
    cases hrecord
    exact h.part hv _ (List.mem_singleton_self _)
  | _ => cases hrecord

lemma Orderly.records_part {xs : List Record} {x : Record} (h : r.Orderly)
    (hxs : r.records? name = some xs) (hx : x ∈ xs) : x.Orderly := by
  obtain ⟨v, hv, hrecords⟩ := Option.bind_eq_some_iff.1 hxs
  cases v with
  | records ys =>
    cases hrecords
    exact h.part hv _ hx
  | _ => cases hrecords

/-! ### New and read records -/

lemma parts_of_matches {P : Record → Prop} {set : SchemaSet} {e : FieldEncoding}
    (h : v.Matches set e) (hP : ∀ k x, e.child? = some k → x.WellFormed set k → P x) :
    ∀ x ∈ v.parts, P x := by
  intro x hx
  cases h with
  | nested wf =>
    cases List.mem_singleton.1 hx
    exact hP _ _ rfl wf
  | vector wf => exact hP _ _ rfl (wf x hx)
  | _ => cases hx

lemma WellFormed.orderly {set : SchemaSet} {k : EntityKind} (h : r.WellFormed set k) :
    r.Orderly := by
  induction hrank : k.rank using Nat.strongRecOn generalizing k r with
  | ind n ih =>
    refine ⟨h.tidy.toShaped, fun f hf v hv => (h.tidy.stored f hf v hv).forms,
      fun f hf v hv => ?_⟩
    rw [descriptors, h.schemas_eq, h.kind_eq] at hf
    exact parts_of_matches (h.matches_of_get? hf hv) fun k' x hk hx =>
      ih _ (hrank ▸ set.below k f hf k' hk) hx rfl

lemma orderly_defaultOf (set : SchemaSet) (k : EntityKind) (hf : f ∈ set.fields k) :
    ∀ x ∈ (set.defaultOf k f hf).parts, x.Orderly :=
  parts_of_matches (f.defaultValue_matches (fun k _ => new_wellFormed set k) (set.sound k f hf)
    (set.below k f hf)) fun _ _ _ hx => hx.orderly

/-! ### Changes -/

lemma orderly_put (hr : r.Orderly) (hf : r.schema.fields[i]? = some f)
    (hv : r.values[i]? = some (some v)) (hint : u.int? = v.int?) (hform : f.encoding.Forms u)
    (hu : ∀ x ∈ u.parts, x.Orderly) : (r.put i u).Orderly := by
  have hi := (List.getElem?_eq_some_iff.1 hv).1
  exact ⟨shaped_put hr.shaped hf hv hint,
    forall_get?_put (fun g hg v hv => hr.formed hg hv) hf hi hform,
    forall_get?_put (P := fun _ v => ∀ x ∈ v.parts, x.Orderly) (fun g _ v hv => hr.part hv)
      hf hi hu⟩

lemma orderly_of_nested? {inner x : Record} {put : Record → Record} (hr : r.Orderly)
    (hx : x.Orderly) (h : r.nested? name = some (inner, put)) : (put x).Orderly := by
  obtain ⟨i, f, hf, rfl, hv, rfl⟩ := exists_field_of_nested? h
  have hform := hr.formed (List.mem_of_getElem? hf) (get?_of_value hf hv)
  refine orderly_put hr hf hv rfl (hform.another_record x) fun y hy => ?_
  cases List.mem_singleton.1 hy
  exact hx

lemma orderly_of_vector? {xs ys : List Record} {put : List Record → Record} (hr : r.Orderly)
    (hys : ∀ y ∈ ys, y.Orderly) (h : r.vector? name = some (xs, put)) : (put ys).Orderly := by
  obtain ⟨i, f, hf, rfl, hv, rfl⟩ := exists_field_of_vector? h
  have hform := hr.formed (List.mem_of_getElem? hf) (get?_of_value hf hv)
  exact orderly_put hr hf hv rfl (hform.other_records ys) hys

lemma parts_of_stores {e : FieldEncoding} (h : e.Stores v u) :
    u.parts = v.parts ∨ u.parts = [] := by
  cases h with
  | nested x => exact .inl rfl
  | vector hk => exact .inl rfl
  | _ => exact .inr rfl

lemma orderly_of_set (hr : r.Orderly) (hv : ∀ x ∈ v.parts, x.Orderly)
    (h : r.set name v = .ok r') : r'.Orderly := by
  have hshaped := shaped_of_set hr.shaped h
  obtain ⟨i, f, u, hf, -, -, hu, rfl⟩ := (set_eq_ok_iff hr.shaped).1 h
  have hi := lt_of_field hr.shaped.length hf
  have hlen : (r.put i u).values.length = r.descriptors.length :=
    (length_put r i u).trans hr.shaped.length
  refine ⟨hshaped, fun g hg w hw => ?_, fun g hg w hw => ?_⟩
  · rcases get?_resettle_cases (r := r.put i u) hlen hg hw with hold | rfl
    · exact forall_get?_put (fun g hg v hv => hr.formed hg hv) hf hi hu.forms g hg w hold
    · exact (defaultOf_stores _ _ hg).forms
  · rcases get?_resettle_cases (r := r.put i u) hlen hg hw with hold | rfl
    · refine forall_get?_put (P := fun _ v => ∀ x ∈ v.parts, x.Orderly) (fun g _ v hv => hr.part hv)
        hf hi (fun x hx => ?_) g hg w hold
      rcases parts_of_stores hu with hparts | hparts
      · exact hv x (hparts ▸ hx)
      · rw [hparts] at hx
        cases hx
    · exact orderly_defaultOf _ _ hg

/-- **Records that a caller can come by** are orderly. -/
theorem Handled.orderly (h : r.Handled) : r.Orderly := by
  induction h with
  | new set k => exact (new_wellFormed set k).orderly
  | read h => exact (Read.record_faithful _ _ _ _ h).1.orderly
  | set _ _ h ihr ihv => exact orderly_of_set ihr ihv h
  | @setInt r name n _ _ h ih =>
    rcases setInt_cases r name n with ⟨v, hv, heq⟩ | ⟨-, heq⟩
    · refine orderly_of_set ih (fun x hx => ?_) (heq ▸ h)
      cases v <;> cases hv <;> cases hx
    · cases heq.symm.trans h
  | part _ h hx ih => exact ih.part h _ hx
  | nested _ _ h ihr ihx => exact orderly_of_nested? ihr ihx h
  | vector _ _ h ihr ihys => exact orderly_of_vector? ihr ihys h

end Record

end CoinScript
