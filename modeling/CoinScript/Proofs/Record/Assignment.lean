import CoinScript.Proofs.Except
import CoinScript.Proofs.Record.Names

/-!
What an assignment changes, and what it leaves alone.

To assign to a field is to put a value into its slot and to settle the record. Settling looks at the
conditions only, so what it changes hangs on the field that was assigned to: its condition looks at
that field, or at one that hangs on it. This holds of all records that can be come by, whatever
the values in them, for it needs only that slots are filled as conditions tell and hold values that
their fields keep.
-/

namespace CoinScript

/-- A field whose condition looks at the field with a name, or at one that hangs on it. -/
inductive FieldDescriptor.HangsOn (fields : List FieldDescriptor) (name : String) :
    FieldDescriptor → Prop
  | direct {g : FieldDescriptor} {bound : Int} (h : g.presence = .greaterThan name bound) :
      HangsOn fields name g
  | through {f g : FieldDescriptor} {bound : Int} (hf : f ∈ fields) (hon : f.HangsOn fields name)
      (h : g.presence = .greaterThan f.name bound) : HangsOn fields name g

namespace Schema

variable {kind : EntityKind} {s : Schema kind} {f g : FieldDescriptor} {i j : Nat}

lemma eq_of_name_eq (hf : s.fields[i]? = some f) (hg : s.fields[j]? = some g)
    (h : f.name = g.name) : i = j := by
  have hi := position?_eq_some hf
  have hj := position?_eq_some hg
  rw [h] at hi
  exact Option.some.inj (hi.symm.trans hj)

lemma lt_of_hangsOn (hf : s.fields[i]? = some f) (hg : s.fields[j]? = some g)
    (h : g.HangsOn s.fields f.name) : i < j := by
  induction h generalizing j with
  | direct hp =>
    obtain ⟨i', f', hlt, hf', hname, -⟩ := s.source_before hg hp
    rwa [eq_of_name_eq hf hf' hname.symm]
  | through hmem _ hp ih =>
    obtain ⟨m, f', hlt, hf', hname, -⟩ := s.source_before hg hp
    obtain ⟨m', hm'⟩ := List.mem_iff_getElem?.1 hmem
    have hm : m' = m := eq_of_name_eq hm' hf' hname.symm
    exact Nat.lt_trans (ih (hm ▸ hm')) hlt

lemma not_hangsOn_self (hf : f ∈ s.fields) : ¬ f.HangsOn s.fields f.name := by
  obtain ⟨i, hi⟩ := List.mem_iff_getElem?.1 hf
  exact fun h => Nat.lt_irrefl i (lt_of_hangsOn hi hi h)

lemma not_hangsOn_of_not_isInt (hf : f ∈ s.fields) (hint : f.encoding.isInt = false)
    (hg : g ∈ s.fields) : ¬ g.HangsOn s.fields f.name := by
  intro h
  induction h with
  | direct hp =>
    obtain ⟨i, hi⟩ := List.mem_iff_getElem?.1 hf
    obtain ⟨j, hj⟩ := List.mem_iff_getElem?.1 hg
    obtain ⟨m, f', -, hm, hname, hisInt⟩ := s.source_before hj hp
    cases eq_of_name_eq hm hi hname
    cases hm.symm.trans hi
    cases hint.symm.trans hisInt
  | through hmem _ _ ih => exact ih hmem

end Schema

namespace Record

/-- Records whose slots are filled as the conditions tell, whatever with. -/
structure Shaped (r : Record) : Prop where
  length : r.values.length = r.descriptors.length
  filled : ∀ f ∈ r.descriptors, (r.get? f.name).isSome = f.presence.holds r.slots

/-- Records whose slots are filled as the conditions tell, with values that the fields keep. -/
structure Tidy (r : Record) : Prop extends Shaped r where
  stored : ∀ f ∈ r.descriptors, ∀ v, r.get? f.name = some v → f.encoding.Stores v v

/-- The records that can be come by: new ones, those that were read, and what assignments and
changes in place make of them. A change in place keeps the kind that the place is for. What an
assignment puts in may be any value, with whatever records in it. -/
inductive Obtained : Record → Prop
  | new (set : SchemaSet) (k : EntityKind) : Obtained (new set k)
  | read {set k c r c'} (h : Read.record set k c = .ok (r, c')) : Obtained r
  | set {r name v r'} (hr : Obtained r) (h : r.set name v = .ok r') : Obtained r'
  | setInt {r name n r'} (hr : Obtained r) (h : r.setInt name n = .ok r') : Obtained r'
  /-- A nested record is changed where it stands. -/
  | nested {r name inner put x} (hr : Obtained r) (h : r.nested? name = some (inner, put))
      (hk : x.kind = inner.kind) : Obtained (put x)
  /-- A vector is changed where it stands, to other records of its kind. -/
  | vector {r name xs put f k ys} (hr : Obtained r) (h : r.vector? name = some (xs, put))
      (hf : f ∈ r.descriptors) (hname : f.name = name) (he : f.encoding = .vector k)
      (hk : ∀ y ∈ ys, y.kind = k) : Obtained (put ys)

/-- `r.Assigned name u r'`: what is left of a record once the field with a name holds `u`. Every
other field is as before unless it hangs on that field, and then it is kept, filled with its default
or emptied, as its condition now tells. -/
structure Assigned (r : Record) (name : String) (u : FieldValue) (r' : Record) : Prop where
  schemas : r'.schemas = r.schemas
  kind : r'.kind = r.kind
  here : r'.get? name = some u
  elsewhere : ∀ g ∈ r.descriptors, g.name ≠ name → ¬ g.HangsOn r.descriptors name →
    r'.get? g.name = r.get? g.name
  hanging : ∀ g (hg : g ∈ r.descriptors), g.name ≠ name → r'.get? g.name =
    if g.presence.holds r'.slots then
      some ((r.get? g.name).getD (r.schemas.defaultOf r.kind g hg)) else none

/-- `r.Replaced name u r'`: the field with a name holds `u` now, and nothing else has changed. -/
structure Replaced (r : Record) (name : String) (u : FieldValue) (r' : Record) : Prop where
  schemas : r'.schemas = r.schemas
  kind : r'.kind = r.kind
  here : r'.get? name = some u
  elsewhere : ∀ other, other ≠ name → r'.get? other = r.get? other

variable {r q r' : Record} {f : FieldDescriptor} {i : Nat} {name : String} {u v : FieldValue}

/-! ### Tidy records -/

lemma Settled.holds_take {set : SchemaSet} {earlier : List (FieldDescriptor × Option FieldValue)}
    {fs : List FieldDescriptor} {vs : List (Option FieldValue)} (h : Settled set earlier fs vs)
    {v? : Option FieldValue} (hf : fs[i]? = some f) (hv : vs[i]? = some v?) :
    v?.isSome = f.presence.holds (earlier ++ (fs.zip vs).take i) := by
  induction fs generalizing earlier vs i with
  | nil => simp at hf
  | cons g fs ih =>
    cases h with
    | filled holds _ rest =>
      cases i with
      | zero =>
        cases hf
        cases hv
        simpa using holds.symm
      | succ i => simpa using ih rest hf hv
    | absent fails rest =>
      cases i with
      | zero =>
        cases hf
        cases hv
        simpa using fails.symm
      | succ i => simpa using ih rest hf hv

lemma exists_slot (hlen : r.values.length = r.descriptors.length) (hf : f ∈ r.descriptors) :
    ∃ i : Nat, r.schema.fields[i]? = some f ∧ r.values[i]? = some (r.get? f.name) := by
  obtain ⟨i, hi⟩ := List.mem_iff_getElem?.1 hf
  have hlt := lt_of_field (r := r) hlen hi
  refine ⟨i, hi, ?_⟩
  rw [get?_of_field (r := r) hi, List.getElem?_eq_getElem hlt, Option.join_some]

lemma WellFormed.matches_of_get? {set : SchemaSet} {k : EntityKind} (h : r.WellFormed set k)
    (hf : f ∈ set.fields k) (hv : r.get? f.name = some v) : v.Matches set f.encoding := by
  have hk := h.kind_eq
  have hs := h.schemas_eq
  subst hk hs
  obtain ⟨i, hi, hslot⟩ := exists_slot h.settled.length_eq hf
  rw [hv] at hslot
  obtain ⟨f', hf', hm⟩ := h.settled.fits_of_filled hslot
  cases hf'.symm.trans hi
  exact hm

lemma WellFormed.tidy {set : SchemaSet} {k : EntityKind} (h : r.WellFormed set k) : r.Tidy := by
  have hk := h.kind_eq
  have hs := h.schemas_eq
  subst hk hs
  have hlen : r.values.length = r.descriptors.length := h.settled.length_eq
  refine ⟨⟨hlen, ?_⟩, fun f hf v hv =>
    .of_matches (r.schemas.sound r.kind f hf).sized (h.matches_of_get? hf hv)⟩
  intro f hf
  obtain ⟨i, hi, hv⟩ := exists_slot hlen hf
  rw [h.settled.holds_take hi hv, List.nil_append]
  exact holds_take hlen hi

lemma defaultOf_stores (set : SchemaSet) (k : EntityKind) (hf : f ∈ set.fields k) :
    f.encoding.Stores (set.defaultOf k f hf) (set.defaultOf k f hf) := by
  have hsound := set.sound k f hf
  exact .of_matches hsound.sized
    (f.defaultValue_matches (fun k _ => new_wellFormed set k) hsound (set.below k f hf))

lemma shaped_resettle (hlen : r.values.length = r.descriptors.length) : r.resettle.Shaped := by
  refine ⟨length_resettle hlen, fun f hf => ?_⟩
  rw [get?_resettle hlen hf]
  split
  · rename_i hholds
    rw [hholds]
    rfl
  · rename_i hholds
    rw [Bool.not_eq_true] at hholds
    rw [hholds]
    rfl

lemma get?_resettle_cases (hlen : r.values.length = r.descriptors.length) (hf : f ∈ r.descriptors)
    (hv : r.resettle.get? f.name = some v) :
    r.get? f.name = some v ∨ v = r.schemas.defaultOf r.kind f hf := by
  rw [get?_resettle hlen hf] at hv
  split at hv
  · cases hv
    cases r.get? f.name with
    | none => exact .inr rfl
    | some w => exact .inl rfl
  · cases hv

lemma tidy_resettle (hlen : r.values.length = r.descriptors.length)
    (hstored : ∀ f ∈ r.descriptors, ∀ v, r.get? f.name = some v → f.encoding.Stores v v) :
    r.resettle.Tidy := by
  refine ⟨shaped_resettle hlen, fun f hf v hv => ?_⟩
  rcases get?_resettle_cases hlen hf hv with hget | rfl
  · exact hstored f hf v hget
  · exact defaultOf_stores _ _ hf

lemma forall_get?_put {P : FieldDescriptor → FieldValue → Prop}
    (hr : ∀ g ∈ r.descriptors, ∀ v, r.get? g.name = some v → P g v)
    (hf : r.schema.fields[i]? = some f) (hi : i < r.values.length) (hu : P f u) :
    ∀ g ∈ r.descriptors, ∀ v, (r.put i u).get? g.name = some v → P g v := by
  intro g hg v hv
  rw [get?_put hf hi] at hv
  split at hv
  · rename_i hname
    cases hv
    cases Schema.eq_of_mem (List.mem_of_getElem? hf) hg hname.symm
    exact hu
  · exact hr g hg v hv

lemma shaped_put (hr : r.Shaped) (hf : r.schema.fields[i]? = some f)
    (hv : r.values[i]? = some (some v)) (hint : u.int? = v.int?) : (r.put i u).Shaped := by
  have hi := (List.getElem?_eq_some_iff.1 hv).1
  have hget : r.get? f.name = some v := get?_of_value hf hv
  have hints (source : String) : (r.put i u).int? source = r.int? source := by
    unfold int?
    rw [get?_put hf hi]
    split
    · rename_i hname
      rw [hname, hget]
      exact hint
    · rfl
  constructor
  · exact (length_put r i u).trans hr.length
  · intro g hg
    have hholds : g.presence.holds (r.put i u).slots = g.presence.holds r.slots :=
      holds_congr_int? fun source _ _ => hints source
    rw [hholds, ← hr.filled g hg, get?_put hf hi]
    split
    · rename_i hname
      rw [hname, hget]
      rfl
    · rfl

lemma tidy_put (hr : r.Tidy) (hf : r.schema.fields[i]? = some f)
    (hv : r.values[i]? = some (some v)) (hint : u.int? = v.int?) (hu : f.encoding.Stores u u) :
    (r.put i u).Tidy :=
  ⟨shaped_put hr.toShaped hf hv hint,
    forall_get?_put hr.stored hf (List.getElem?_eq_some_iff.1 hv).1 hu⟩

lemma tidy_of_nested? {inner x : Record} {put : Record → Record} (hr : r.Tidy)
    (h : r.nested? name = some (inner, put)) (hk : x.kind = inner.kind) : (put x).Tidy := by
  obtain ⟨i, f, hf, rfl, hv, rfl⟩ := exists_field_of_nested? h
  refine tidy_put hr hf hv rfl ?_
  have hinner := hr.stored f (List.mem_of_getElem? hf) _ (get?_of_value hf hv)
  generalize f.encoding = e at hinner ⊢
  cases hinner with
  | nested _ => exact hk ▸ .nested x

/-! ### Settling after a change -/

/-- **Settling** does not spread: if a record agrees with a shaped one on some names, and no
condition of a field among them looks beyond them, then it still does once it is settled. -/
theorem get?_resettle_congr (hr : r.Shaped) (hschemas : q.schemas = r.schemas)
    (hkind : q.kind = r.kind) (hlen : q.values.length = r.values.length) {S : String → Prop}
    (hclosed : ∀ f ∈ r.descriptors, ∀ source bound, f.presence = .greaterThan source bound →
      S f.name → S source)
    (hagree : ∀ f ∈ r.descriptors, S f.name → q.get? f.name = r.get? f.name) :
    ∀ f ∈ r.descriptors, S f.name → q.resettle.get? f.name = r.get? f.name := by
  obtain ⟨s, k, ws⟩ := q
  obtain ⟨_, _, vs⟩ := r
  cases hschemas
  cases hkind
  have hlen' : (mk s k ws).values.length = (mk s k ws).descriptors.length :=
    hlen.trans hr.length
  intro f hf hS
  obtain ⟨i, hi⟩ := List.mem_iff_getElem?.1 hf
  -- a condition looks at a field further in front, so the induction is on the place
  induction i using Nat.strongRecOn generalizing f with
  | ind i ih =>
    have hholds : f.presence.holds (mk s k ws).resettle.slots =
        f.presence.holds (mk s k vs).slots := by
      refine holds_congr_int? fun source bound hp => ?_
      obtain ⟨j, g, hji, hg, rfl, -⟩ := (s.get k).source_before hi hp
      have hget := ih j hji g (List.mem_of_getElem? hg) (hclosed f hf _ _ hp hS) hg
      exact congrArg (Option.bind · FieldValue.int?) hget
    rw [get?_resettle hlen' hf, hholds, hagree f hf hS, ← hr.filled f hf]
    cases (mk s k vs).get? f.name with
    | none => rfl
    | some v => rfl

lemma resettle_eq_self (hr : r.Shaped) : r.resettle = r := by
  have hsame := get?_resettle_congr hr rfl rfl rfl (S := fun _ => True) (fun _ _ _ _ _ _ => trivial)
    (fun _ _ _ => rfl)
  have hvalues : r.resettle.values = r.values :=
    eq_of_lookup_eq r.schema.nodup_names (length_resettle hr.length) hr.length
      fun f hf => hsame f hf trivial
  obtain ⟨s, k, vs⟩ := r
  exact congrArg (mk s k) hvalues

/-- **An assignment** changes the field and what hangs on it. -/
theorem assigned_resettle_put (hr : r.Shaped) (hf : r.schema.fields[i]? = some f)
    (hget : (r.get? f.name).isSome = true) (u : FieldValue) :
    r.Assigned f.name u (r.put i u).resettle := by
  have hmem : f ∈ r.descriptors := List.mem_of_getElem? hf
  have hi := lt_of_field hr.length hf
  have hlen : (r.put i u).values.length = r.values.length := length_put r i u
  have helse : ∀ g ∈ r.descriptors, (g.name ≠ f.name ∧ ¬ g.HangsOn r.descriptors f.name) →
      (r.put i u).resettle.get? g.name = r.get? g.name := by
    intro g hg hS
    -- the names that do not hang on the field are closed under what conditions look at
    refine get?_resettle_congr (q := r.put i u) hr rfl rfl hlen
      (S := fun x => x ≠ f.name ∧
        ∀ h ∈ r.descriptors, h.name = x → ¬ h.HangsOn r.descriptors f.name)
      ?_ ?_ g hg ⟨hS.1, ?_⟩
    · intro h hh source bound hp hS'
      refine ⟨?_, ?_⟩
      · rintro rfl
        exact hS'.2 h hh rfl (.direct hp)
      · rintro h' hh' rfl hon
        exact hS'.2 h hh rfl (.through hh' hon hp)
    · intro h _ hS'
      rw [get?_put hf hi, if_neg hS'.1]
    · intro h hh hname
      obtain ⟨j, hj⟩ := List.mem_iff_getElem?.1 hg
      obtain ⟨j', hj'⟩ := List.mem_iff_getElem?.1 hh
      cases Schema.eq_of_name_eq (s := r.schema) hj' hj hname
      cases hj'.symm.trans hj
      exact hS.2
  have hall : ∀ g (hg : g ∈ r.descriptors), (r.put i u).resettle.get? g.name =
      if g.presence.holds (r.put i u).resettle.slots then
        some (((r.put i u).get? g.name).getD (r.schemas.defaultOf r.kind g hg)) else none :=
    fun g hg => get?_resettle (hlen.trans hr.length) hg
  refine ⟨rfl, rfl, ?_, fun g hg hne hon => helse g hg ⟨hne, hon⟩, ?_⟩
  · -- its condition looks at a field that does not hang on it, so it still holds
    have hholds : f.presence.holds (r.put i u).resettle.slots = f.presence.holds r.slots := by
      refine holds_congr_int? fun source bound hp => ?_
      obtain ⟨j, g, -, hg, rfl, -⟩ := r.schema.source_before hf hp
      have hgmem : g ∈ r.descriptors := List.mem_of_getElem? hg
      have hself := r.schema.not_hangsOn_self (f := f) hmem
      have hsame := helse g hgmem ⟨fun hname => hself (.direct (hname ▸ hp)),
        fun hon => hself (.through hgmem hon hp)⟩
      exact congrArg (Option.bind · FieldValue.int?) hsame
    rw [hall f hmem, hholds, ← hr.filled f hmem, hget, get?_put hf hi]
    simp
  · intro g hg hne
    rw [hall g hg, get?_put hf hi, if_neg hne]

lemma Assigned.replaced (h : r.Assigned f.name u r') (hf : f ∈ r.descriptors)
    (hint : f.encoding.isInt = false) : r.Replaced f.name u r' := by
  refine ⟨h.schemas, h.kind, h.here, fun other hne => ?_⟩
  by_cases hfield : ∃ g ∈ r.descriptors, g.name = other
  · obtain ⟨g, hg, rfl⟩ := hfield
    -- nothing hangs on a field that is no integer
    exact h.elsewhere g hg hne (r.schema.not_hangsOn_of_not_isInt hf hint hg)
  · have hnone {q : Record} (hq : q.descriptors = r.descriptors) : q.get? other = none := by
      rw [Option.eq_none_iff_forall_ne_some]
      intro v hv
      exact hfield (hq ▸ exists_of_get? hv)
    have hsame : r'.descriptors = r.descriptors := by
      rw [descriptors, descriptors, h.schemas, h.kind]
    rw [hnone hsame, hnone rfl]

/-! ### Setting -/

lemma set_of_missing (h : ∀ f ∈ r.descriptors, f.name ≠ name) (v : FieldValue) :
    r.set name v = .error (.schema (.noField r.kind name)) := by
  unfold Record.set
  have hnone : r.schema.position? name = none := by
    rw [Schema.position?, List.findIdx?_eq_none_iff]
    intro f hf
    simpa using h f hf
  rw [hnone]

lemma set_of_field (hlen : r.values.length = r.descriptors.length)
    (hf : r.schema.fields[i]? = some f) (v : FieldValue) :
    r.set f.name v = if (r.get? f.name).isSome then
      (fun u => (r.put i u).resettle) <$> f.coerce v
    else .error (.encoding (.notPresent f.name r.kind)) := by
  have hi := lt_of_field hlen hf
  have hslot : r.slots[i]? = some (f, r.values[i]) :=
    List.getElem?_zip_eq_some.2 ⟨hf, List.getElem?_eq_getElem hi⟩
  unfold Record.set
  simp only [Schema.position?_eq_some hf, hslot, get?_of_slot hslot]
  cases r.values[i] with
  | none => rfl
  | some v₀ =>
    simp only [Option.isSome_some, if_true]
    cases f.coerce v <;> rfl

theorem set_eq_ok_iff (hr : r.Shaped) : r.set name v = .ok r' ↔
    ∃ (i : Nat) (f : FieldDescriptor) (u : FieldValue), r.schema.fields[i]? = some f ∧
      f.name = name ∧ (r.get? name).isSome = true ∧ f.encoding.Stores v u ∧
        r' = (r.put i u).resettle := by
  have hcoerce {i : Nat} {f : FieldDescriptor} {u : FieldValue}
      (hf : r.schema.fields[i]? = some f) : f.coerce v = .ok u ↔ f.encoding.Stores v u :=
    FieldDescriptor.coerce_eq_ok (r.schemas.sound r.kind f (List.mem_of_getElem? hf)).sized
  constructor
  · intro h
    by_cases hmissing : ∀ f ∈ r.descriptors, f.name ≠ name
    · rw [set_of_missing hmissing] at h
      cases h
    · push Not at hmissing
      obtain ⟨f, hmem, rfl⟩ := hmissing
      obtain ⟨i, hf⟩ := List.mem_iff_getElem?.1 hmem
      rw [set_of_field hr.length hf] at h
      split at h
      · rename_i hget
        cases hu : f.coerce v with
        | error e =>
          rw [hu] at h
          cases h
        | ok u =>
          rw [hu] at h
          cases h
          exact ⟨i, f, u, hf, rfl, hget, (hcoerce hf).1 hu, rfl⟩
      · cases h
  · rintro ⟨i, f, u, hf, rfl, hget, hu, rfl⟩
    rw [set_of_field hr.length hf, hget, (hcoerce hf).2 hu]
    rfl

theorem assigned_of_set (hr : r.Shaped) (h : r.set name v = .ok r') : ∃ f ∈ r.descriptors,
    f.name = name ∧ ∃ u, f.encoding.Stores v u ∧ r.Assigned name u r' := by
  obtain ⟨i, f, u, hf, rfl, hget, hu, rfl⟩ := (set_eq_ok_iff hr).1 h
  exact ⟨f, List.mem_of_getElem? hf, rfl, u, hu, assigned_resettle_put hr hf hget u⟩

lemma set_eq_self (hr : r.Shaped) (hf : f ∈ r.descriptors) (hv : r.get? f.name = some v)
    (hstored : f.encoding.Stores v v) : r.set f.name v = .ok r := by
  obtain ⟨i, hi, hslot⟩ := exists_slot hr.length hf
  have hsame : r.put i v = r := by
    rw [hv] at hslot
    obtain ⟨hlt, hslot⟩ := List.getElem?_eq_some_iff.1 hslot
    obtain ⟨s, k, vs⟩ := r
    exact congrArg (mk s k) (hslot ▸ List.set_getElem_self hlt)
  refine (set_eq_ok_iff hr).2 ⟨i, f, v, hi, rfl, ?_, hstored, ?_⟩
  · rw [hv]
    rfl
  · rw [hsame, resettle_eq_self hr]

lemma setInt_cases (r : Record) (name : String) (n : Int) :
    (∃ v : FieldValue, v.int? = some n ∧ r.setInt name n = r.set name v) ∨
      (n < -0x8000000000000000 ∨ 0x10000000000000000 ≤ n) ∧
        r.setInt name n = .error (.encoding (.outOfRange n name)) := by
  unfold setInt
  split
  · exact .inl ⟨.int n, rfl, rfl⟩
  · rename_i hsigned
    split
    · rename_i hunsigned
      have hnat : (n.toNat : Int) = n := Int.toNat_of_nonneg hunsigned.1
      exact .inl ⟨.uint n.toNat, congrArg some hnat, rfl⟩
    · exact .inr ⟨by omega, rfl⟩

lemma setInt_eq_set (hf : f.encoding.Sized) {w : Nat} {signed : Bool} {n : Int}
    (he : f.encoding = .int w signed) (hn : InRange w signed n) (name : String) :
    ∃ v : FieldValue, v.int? = some n ∧ r.setInt name n = r.set name v := by
  have hbounds := hn.bounds (hf w signed he).2
  rcases setInt_cases r name n with h | ⟨hout, -⟩
  · exact h
  · omega

/-! ### In place -/

/-- Setting a field of the record at hand: the value first, then the slots that follow it. -/
def assign (name : String) (v : FieldValue) : InPlace Fault Record Unit := do
  let r ← get
  match r.schema.position? name with
  | none => throw (.schema (.noField r.kind name))
  | some i =>
    match r.slots[i]? with
    | some (f, some _) =>
      let u ← ofExcept (f.coerce v)
      modify (·.put i u)
      modify resettle
    | _ => throw (.encoding (.notPresent name r.kind))

/-- Setting an integer field of the record at hand. -/
def assignInt (name : String) (n : Int) : InPlace Fault Record Unit :=
  if -0x8000000000000000 ≤ n ∧ n < 0x8000000000000000 then assign name (.int n)
  else if 0 ≤ n ∧ n < 0x10000000000000000 then assign name (.uint n.toNat)
  else throw (.encoding (.outOfRange n name))

lemma assign_on (r : Record) (name : String) (v : FieldValue) : (assign name v).on r =
    match r.set name v with
    | .ok r' => (.ok (), r')
    | .error e => (.error e, r) := by
  unfold assign Record.set
  rw [InPlace.on_get_bind]
  cases r.schema.position? name with
  | none => rfl
  | some i =>
    rcases hslot : r.slots[i]? with _ | ⟨f, _ | v₀⟩
    · simp [hslot]
    · simp [hslot]
    · cases hu : f.coerce v with
      | error e => simp [hslot, hu, InPlace.on_error_bind]
      | ok u => simp [hslot, hu, InPlace.on_ok_bind]

lemma assignInt_on (r : Record) (name : String) (n : Int) : (assignInt name n).on r =
    match r.setInt name n with
    | .ok r' => (.ok (), r')
    | .error e => (.error e, r) := by
  unfold assignInt setInt
  split
  · exact assign_on r name _
  · split
    · exact assign_on r name _
    · rfl

/-! ### The records that can be come by -/

lemma shaped_of_set (hr : r.Shaped) (h : r.set name v = .ok r') : r'.Shaped := by
  obtain ⟨i, f, u, -, -, -, -, rfl⟩ := (set_eq_ok_iff hr).1 h
  exact shaped_resettle ((length_put r i u).trans hr.length)

lemma tidy_of_set (hr : r.Tidy) (h : r.set name v = .ok r') : r'.Tidy := by
  obtain ⟨i, f, u, hf, rfl, -, hu, rfl⟩ := (set_eq_ok_iff hr.toShaped).1 h
  have hi := lt_of_field hr.length hf
  exact tidy_resettle ((length_put r i u).trans hr.length)
    (forall_get?_put hr.stored hf hi hu.again)

theorem replaced_of_set (hr : r.Shaped) (hv : v.int? = none) (h : r.set name v = .ok r') :
    ∃ f ∈ r.descriptors, f.name = name ∧ ∃ u, f.encoding.Stores v u ∧ r.Replaced name u r' ∧
      r'.set name u = .ok r' := by
  obtain ⟨f, hf, rfl, u, hu, hassigned⟩ := assigned_of_set hr h
  have hf' : f ∈ r'.descriptors := by rwa [descriptors, hassigned.schemas, hassigned.kind]
  exact ⟨f, hf, rfl, u, hu, hassigned.replaced hf (hu.isInt_eq_false hv),
    set_eq_self (shaped_of_set hr h) hf' hassigned.here hu.again⟩

lemma exists_set_of_stores (hr : r.Shaped) (hf : f ∈ r.descriptors)
    (hget : (r.get? f.name).isSome = true) (hint : v.int? = none) (hu : f.encoding.Stores v u) :
    ∃ r', r.set f.name v = .ok r' ∧ r.Replaced f.name u r' := by
  obtain ⟨i, hi⟩ := List.mem_iff_getElem?.1 hf
  refine ⟨_, (set_eq_ok_iff hr).2 ⟨i, f, u, hi, rfl, hget, hu, rfl⟩, ?_⟩
  exact (assigned_resettle_put hr hi hget u).replaced hf (hu.isInt_eq_false hint)

theorem Obtained.tidy (h : r.Obtained) : r.Tidy := by
  induction h with
  | new set k => exact (new_wellFormed set k).tidy
  | read h => exact (Read.record_faithful _ _ _ _ h).1.tidy
  | set _ h ih => exact tidy_of_set ih h
  | @setInt r name n _ _ h ih =>
    rcases setInt_cases r name n with ⟨v, -, heq⟩ | ⟨-, heq⟩
    · exact tidy_of_set ih (heq ▸ h)
    · cases heq.symm.trans h
  | nested _ h hk ih => exact tidy_of_nested? ih h hk
  | @vector r name xs put f k ys _ h hmem hname he hk ih =>
    obtain ⟨i, f', hf', hname', hv, rfl⟩ := exists_field_of_vector? h
    cases Schema.eq_of_mem (List.mem_of_getElem? hf') hmem (hname'.trans hname.symm)
    exact tidy_put ih hf' hv rfl (he ▸ .vector hk)

/-- **Laws of assignment.** Setting succeeds just where the field is there and takes the value;
it changes that field and what hangs on it, and nothing at all where it fails or where the value is
what the field holds. -/
theorem Obtained.set_lens (hr : r.Obtained) (name : String) :
    (∀ v, (∃ r', r.set name v = .ok r') ↔ ∃ f ∈ r.descriptors, f.name = name ∧
      (r.get? name).isSome = true ∧ ∃ u, f.encoding.Stores v u) ∧
    (∀ n, (∃ r', r.setInt name n = .ok r') ↔ ∃ f ∈ r.descriptors, f.name = name ∧
      (r.get? name).isSome = true ∧ ∃ w signed, f.encoding = .int w signed ∧ InRange w signed n) ∧
    (∀ v r', r.set name v = .ok r' → ∃ f ∈ r.descriptors, f.name = name ∧
      ∃ u, f.encoding.Stores v u ∧ r.Assigned name u r') ∧
    (∀ n r', r.setInt name n = .ok r' → r'.int? name = some n ∧ ∃ u, r.Assigned name u r') ∧
    (∀ v, (assign name v).on r = match r.set name v with
      | .ok r' => (.ok (), r')
      | .error e => (.error e, r)) ∧
    (∀ n, (assignInt name n).on r = match r.setInt name n with
      | .ok r' => (.ok (), r')
      | .error e => (.error e, r)) ∧
    ∀ v, r.get? name = some v → r.set name v = .ok r := by
  have htidy := hr.tidy
  have hshaped := htidy.toShaped
  have hset (v : FieldValue) : (∃ r', r.set name v = .ok r') ↔ ∃ f ∈ r.descriptors,
      f.name = name ∧ (r.get? name).isSome = true ∧ ∃ u, f.encoding.Stores v u := by
    constructor
    · rintro ⟨r', h⟩
      obtain ⟨i, f, u, hf, hname, hget, hu, -⟩ := (set_eq_ok_iff hshaped).1 h
      exact ⟨f, List.mem_of_getElem? hf, hname, hget, u, hu⟩
    · rintro ⟨f, hf, hname, hget, u, hu⟩
      obtain ⟨i, hi⟩ := List.mem_iff_getElem?.1 hf
      exact ⟨_, (set_eq_ok_iff hshaped).2 ⟨i, f, u, hi, hname, hget, hu, rfl⟩⟩
  refine ⟨hset, ?_, fun v r' h => assigned_of_set hshaped h, ?_, assign_on r name,
    assignInt_on r name, ?_⟩
  · intro n
    constructor
    · rintro ⟨r', h⟩
      -- an integer that is neither a signed nor an unsigned one of eight bytes is in no range
      rcases setInt_cases r name n with ⟨v, hv, heq⟩ | ⟨-, heq⟩
      · obtain ⟨f, hf, hname, hget, hstores⟩ := (hset v).1 ⟨r', heq ▸ h⟩
        exact ⟨f, hf, hname, hget, (FieldEncoding.exists_stores_iff hv).1 hstores⟩
      · cases heq.symm.trans h
    · rintro ⟨f, hf, hname, hget, w, signed, he, hn⟩
      obtain ⟨v, hv, heq⟩ :=
        setInt_eq_set (r := r) (r.schemas.sound r.kind f hf).sized he hn name
      rw [heq, hset]
      exact ⟨f, hf, hname, hget, (FieldEncoding.exists_stores_iff hv).2 ⟨w, signed, he, hn⟩⟩
  · intro n r' h
    rcases setInt_cases r name n with ⟨v, hv, heq⟩ | ⟨-, heq⟩
    · obtain ⟨f, -, -, u, hu, hr'⟩ := assigned_of_set hshaped (heq ▸ h : r.set name v = .ok r')
      refine ⟨?_, u, hr'⟩
      rw [int?, hr'.here, Option.bind_some, hu.int?_eq hv]
    · cases heq.symm.trans h
  · intro v hv
    obtain ⟨f, hf, rfl⟩ := exists_of_get? hv
    exact set_eq_self hshaped hf hv (htidy.stored f hf v hv)

def amountField : FieldDescriptor := { name := "value", encoding := .int 8 true }

def rankField : FieldDescriptor := { name := "rank", encoding := .int 1 false }

def levelField : FieldDescriptor :=
  { name := "level", encoding := .int 2 true, presence := .greaterThan "rank" 0,
    default? := some (.int 1) }

def noteField : FieldDescriptor :=
  { name := "note", encoding := .varBytes, presence := .greaterThan "level" 0 }

def ranked : SchemaSet :=
  { Standard.bitcoin with txout := ⟨[amountField, rankField, levelField, noteField], by decide⟩ }

theorem ranked_set_lens : (new ranked .txOut).Obtained ∧
    (∃ r', (new ranked .txOut).setInt "rank" 255 = .ok r' ∧ r'.int? "rank" = some 255 ∧
      r'.get? "value" = (new ranked .txOut).get? "value" ∧
      r'.get? "level" = some (.int 1) ∧ r'.get? "note" = some (.bytes [])) ∧
    (assignInt "rank" 256).on (new ranked .txOut) =
      (.error (.encoding (.mismatch (.int 256) (.int 1 false) "rank")), new ranked .txOut) := by
  have hnew : (new ranked .txOut).Obtained := .new ranked .txOut
  have hfields : (new ranked .txOut).descriptors =
      [amountField, rankField, levelField, noteField] := rfl
  obtain ⟨-, hset, -, hint, -, hinPlace, -⟩ := hnew.set_lens "rank"
  obtain ⟨r', hr'⟩ := (hset 255).2 ⟨rankField, by simp [hfields], rfl, rfl, 1, false, rfl,
    by decide, by decide⟩
  obtain ⟨hrank, u, hassigned⟩ := hint 255 r' hr'
  have hvalue := hassigned.elsewhere amountField (by simp [hfields]) (by decide)
    (by rintro (⟨⟨⟩⟩ | ⟨-, -, ⟨⟩⟩))
  have hlevel : r'.get? "level" = some (.int 1) := by
    have h := hassigned.hanging levelField (by simp [hfields]) (by decide)
    have hholds : levelField.presence.holds r'.slots = true := by
      change Option.any _ (r'.int? "rank") = true
      rw [hrank]
      rfl
    rwa [hholds] at h
  have hnote : r'.get? "note" = some (.bytes []) := by
    have h := hassigned.hanging noteField (by simp [hfields]) (by decide)
    have hholds : noteField.presence.holds r'.slots = true := by
      change Option.any _ ((r'.get? "level").bind FieldValue.int?) = true
      rw [hlevel]
      rfl
    rwa [hholds] at h
  exact ⟨hnew, ⟨r', hr', hrank, hvalue, hlevel, hnote⟩, hinPlace 256⟩

end Record

end CoinScript
