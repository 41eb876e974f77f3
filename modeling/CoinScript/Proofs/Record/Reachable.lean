import CoinScript.Proofs.Record.Reading
import CoinScript.Proofs.Record.Stored

/-!
The records that can be come by: new ones, those that were read, and what changes make of
them.

Everything that a change puts into a record is itself a record that can be come by, made
with the same schemas and of the kind that the place is for. All such records are well
formed.
-/

namespace CoinScript

namespace Record

/-- The records that can be come by under some schemas. -/
inductive Reachable (set : SchemaSet) : Record → Prop
  | new (k : EntityKind) : Reachable set (new set k)
  | read {k c r c'} (h : Read.record set k c = .ok (r, c')) : Reachable set r
  | set {r name v r'} (hr : Reachable set r) (hv : ∀ x ∈ v.parts, Reachable set x)
      (h : r.set name v = .ok r') : Reachable set r'
  | setInt {r name v r'} (hr : Reachable set r) (h : r.setInt name v = .ok r') : Reachable set r'
  /-- A record held by another. -/
  | part {r s inner put} (hr : Reachable set r) (h : r.step? s = some (inner, put)) :
      Reachable set inner
  /-- A record held by another is changed where it stands. -/
  | edit {r s inner put x} (hr : Reachable set r) (h : r.step? s = some (inner, put))
      (hx : Reachable set x) (hk : x.kind = inner.kind) : Reachable set (put x)
  /-- A vector is changed where it stands: records of its kind are pushed, removed, reordered. -/
  | vector {r name rs put f k xs} (hr : Reachable set r) (h : r.vector? name = some (rs, put))
      (hf : r.schema.field? name = some f) (he : f.encoding = .vector k)
      (hx : ∀ x ∈ xs, Reachable set x) (hk : ∀ x ∈ xs, x.kind = k) : Reachable set (put xs)

variable {set : SchemaSet} {k : EntityKind} {r : Record}

lemma Reachable.deserialize {b : Bytes} (h : Record.deserialize set k b = .ok r) :
    Reachable set r := by
  obtain ⟨c, hc, -⟩ := deserialize_eq_ok.1 h
  exact .read hc

/-! ### Setting -/

lemma set_eq_ok {v : FieldValue} {name : String} {r' : Record} (h : r.set name v = .ok r') :
    ∃ i f v₀ u, r.slots[i]? = some (f, some v₀) ∧ f.coerce v = .ok u ∧
      r' = (r.put i u).resettle := by
  unfold Record.set at h
  split at h
  · cases h
  · rename_i i _
    split at h
    · rename_i f v₀ hslot
      cases hu : f.coerce v with
      | error e =>
        rw [hu] at h
        cases h
      | ok u =>
        rw [hu] at h
        cases h
        exact ⟨i, f, v₀, u, hslot, hu, rfl⟩
    · cases h

lemma set_wellFormed {v : FieldValue} {name : String} {r' : Record} (hr : r.WellFormed set k)
    (hv : ∀ x ∈ v.parts, x.WellFormed set x.kind) (h : r.set name v = .ok r') :
    r'.WellFormed set k := by
  obtain ⟨i, f, v₀, u, hslot, hu, rfl⟩ := set_eq_ok h
  obtain ⟨hf, -⟩ := List.getElem?_zip_eq_some.1 hslot
  cases hr with
  | mk settled =>
    rename_i values
    -- settling asks for values of their fields only, and conditions are seen to by it
    refine resettle_wellFormed rfl rfl ?_ ?_
    · change (values.set i _).length = _
      rw [List.length_set, settled.length_eq]
    · intro j g w hg hw
      change (values.set i (some u))[j]? = some (some w) at hw
      rw [List.getElem?_set] at hw
      split at hw
      · rename_i hij
        subst hij
        split at hw
        · cases hw
          cases hf.symm.trans hg
          have hsized := (set.sound k f (List.mem_of_getElem? hf)).sized
          exact (FieldDescriptor.stores_of_coerce hsized hu).matches hsized hv
        · cases hw
      · obtain ⟨g', hg', hm⟩ := settled.fits_of_filled hw
        cases hg'.symm.trans hg
        exact hm

lemma setInt_wellFormed {v : Int} {name : String} {r' : Record} (hr : r.WellFormed set k)
    (h : r.setInt name v = .ok r') : r'.WellFormed set k := by
  unfold Record.setInt at h
  split at h
  · exact set_wellFormed hr (by simp [FieldValue.parts]) h
  · split at h
    · exact set_wellFormed hr (by simp [FieldValue.parts]) h
    · cases h

/-! ### Records held by others -/

lemma nested?_eq_some {name : String} {inner : Record} {put : Record → Record}
    (h : r.nested? name = some (inner, put)) :
    ∃ i, r.schema.position? name = some i ∧ r.values[i]? = some (some (.record inner)) ∧
      put = fun x => r.put i (.record x) := by
  unfold Record.nested? at h
  simp only [Option.bind_eq_bind, Option.bind_eq_some_iff] at h
  obtain ⟨i, hi, x, ⟨v, hv, hx⟩, hput⟩ := h
  cases hput
  cases v with
  | record y =>
    cases hx
    exact ⟨i, hi, Option.join_eq_some_iff.1 hv, rfl⟩
  | _ => cases hx

lemma vector?_eq_some {name : String} {rs : List Record} {put : List Record → Record}
    (h : r.vector? name = some (rs, put)) :
    ∃ i, r.schema.position? name = some i ∧ r.values[i]? = some (some (.records rs)) ∧
      put = fun xs => r.put i (.records xs) := by
  unfold Record.vector? at h
  simp only [Option.bind_eq_bind, Option.bind_eq_some_iff] at h
  obtain ⟨i, hi, x, ⟨v, hv, hx⟩, hput⟩ := h
  cases hput
  cases v with
  | records ys =>
    cases hx
    exact ⟨i, hi, Option.join_eq_some_iff.1 hv, rfl⟩
  | _ => cases hx

lemma put_wellFormed {i : Nat} {f : FieldDescriptor} {v w : FieldValue} (hr : r.WellFormed set k)
    (hf : (set.fields k)[i]? = some f) (hv : r.values[i]? = some (some v))
    (hint : w.int? = v.int?) (hw : w.Matches set f.encoding) : (r.put i w).WellFormed set k := by
  cases hr with
  | mk settled => exact .mk (settled.replace hf hv hint hw)

lemma nested?_wellFormed {name : String} {inner : Record} {put : Record → Record}
    (hr : r.WellFormed set k) (h : r.nested? name = some (inner, put)) :
    inner.WellFormed set inner.kind ∧
      ∀ x, x.WellFormed set inner.kind → (put x).WellFormed set k := by
  obtain ⟨i, -, hv, rfl⟩ := nested?_eq_some h
  obtain ⟨f, hf, hm⟩ := hr.settled.fits_of_filled hv
  generalize he : f.encoding = e at hm
  cases hm with
  | nested wf =>
    have hk := wf.kind_eq
    subst hk
    refine ⟨wf, fun x hx => put_wellFormed hr hf hv rfl ?_⟩
    rw [he]
    exact .nested hx

lemma vector?_wellFormed {name : String} {rs : List Record} {put : List Record → Record}
    (hr : r.WellFormed set k) (h : r.vector? name = some (rs, put)) :
    ∃ k', (∀ f, r.schema.field? name = some f → f.encoding = .vector k') ∧
      (∀ x ∈ rs, x.WellFormed set k') ∧
      ∀ xs, (∀ x ∈ xs, x.WellFormed set k') → (put xs).WellFormed set k := by
  obtain ⟨i, hi, hv, rfl⟩ := vector?_eq_some h
  obtain ⟨f, hf, hm⟩ := hr.settled.fits_of_filled hv
  generalize he : f.encoding = e at hm
  cases hm with
  | @vector k' _ wf =>
    refine ⟨k', ?_, wf, fun xs hxs => put_wellFormed hr hf hv rfl ?_⟩
    · intro g hg
      cases hr with
      | mk settled =>
        unfold Schema.field? at hg
        unfold Schema.position? at hi
        rw [List.find?_eq_bind_findIdx?_getElem?, hi] at hg
        cases hf.symm.trans hg
        exact he
    · rw [he]
      exact .vector hxs

lemma element?_eq_some {name : String} {index : Nat} {inner : Record} {put : Record → Record}
    (h : r.element? name index = some (inner, put)) :
    ∃ rs putAll, r.vector? name = some (rs, putAll) ∧ rs[index]? = some inner ∧
      put = fun x => putAll (rs.set index x) := by
  unfold Record.element? at h
  simp only [Option.bind_eq_bind, Option.bind_eq_some_iff] at h
  obtain ⟨⟨rs, putAll⟩, hrs, x, hx, hput⟩ := h
  cases hput
  exact ⟨rs, putAll, hrs, hx, rfl⟩

lemma step?_wellFormed {s : Step} {inner : Record} {put : Record → Record}
    (hr : r.WellFormed set k) (h : r.step? s = some (inner, put)) :
    inner.WellFormed set inner.kind ∧
      ∀ x, x.WellFormed set inner.kind → (put x).WellFormed set k := by
  cases s with
  | field name => exact nested?_wellFormed hr h
  | element name index =>
    obtain ⟨rs, putAll, hrs, hinner, rfl⟩ := element?_eq_some h
    obtain ⟨k', -, wf, hput⟩ := vector?_wellFormed hr hrs
    have hwf := wf inner (List.mem_of_getElem? hinner)
    have hk := hwf.kind_eq
    subst hk
    refine ⟨hwf, fun x hx => hput _ ?_⟩
    intro y hy
    rcases List.mem_or_eq_of_mem_set hy with hy | rfl
    · exact wf y hy
    · exact hx

/-- **Every record that can be come by is well formed.** -/
theorem Reachable.wellFormed (h : Reachable set r) : r.WellFormed set r.kind := by
  have lift {x : Record} {k' : EntityKind} (hx : x.WellFormed set k') :
      x.WellFormed set x.kind := hx.kind_eq.symm ▸ hx
  induction h with
  | new k => exact lift (new_wellFormed set k)
  | read h => exact lift (Read.record_faithful _ _ _ _ h).1
  | set _ _ h ih ihv => exact lift (set_wellFormed ih ihv h)
  | setInt _ h ih => exact lift (setInt_wellFormed ih h)
  | part _ h ih => exact (step?_wellFormed ih h).1
  | edit _ h _ hk ih ihx => exact lift ((step?_wellFormed ih h).2 _ (hk ▸ ihx))
  | vector _ h hf he _ hk ih ihx =>
    obtain ⟨k', hk', -, hput⟩ := vector?_wellFormed ih h
    cases (hk' _ hf).symm.trans he
    exact lift (hput _ fun x hx => hk x hx ▸ ihx x hx)

lemma Reachable.push {name : String} {f : FieldDescriptor} {x r' : Record} (hr : Reachable set r)
    (hf : r.schema.field? name = some f) (he : f.encoding = .vector x.kind)
    (hx : Reachable set x) (h : r.push? name x = some r') : Reachable set r' := by
  unfold push? at h
  simp only [Option.bind_eq_bind, Option.bind_eq_some_iff] at h
  obtain ⟨⟨rs, put⟩, hrs, hput⟩ := h
  cases hput
  obtain ⟨k', hk', wf, -⟩ := vector?_wellFormed hr.wellFormed hrs
  cases (hk' _ hf).symm.trans he
  refine .vector hr hrs hf he ?_ ?_
  · intro y hy
    rcases List.mem_append.1 hy with hy | hy
    · obtain ⟨i, hi⟩ := List.mem_iff_getElem?.1 hy
      exact .part (s := .element name i) hr (by simp [step?, element?, hrs, hi]; rfl)
    · rwa [List.mem_singleton.1 hy]
  · intro y hy
    rcases List.mem_append.1 hy with hy | hy
    · exact (wf y hy).kind_eq
    · rw [List.mem_singleton.1 hy]

end Record

end CoinScript
