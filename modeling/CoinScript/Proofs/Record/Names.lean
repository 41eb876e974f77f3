import CoinScript.Proofs.Record.Slots

/-!
Records by the names of their fields.

Names are unique, so a field is found at its place, a slot that gets another value is seen under one
name only, and a condition sees in the slots before its field what it sees in the whole record. With
that, settling is told without places: it keeps or fills each field whose condition now holds and
empties every other.
-/

namespace CoinScript

namespace Schema

variable {kind : EntityKind} {s : Schema kind} {name : String} {f : FieldDescriptor} {i : Nat}

lemma position?_eq_some (hf : s.fields[i]? = some f) : s.position? f.name = some i := by
  obtain ⟨hi, rfl⟩ := List.getElem?_eq_some_iff.1 hf
  refine List.findIdx?_eq_some_iff_getElem.2 ⟨hi, by simp, fun j hj => ?_⟩
  have hne := List.pairwise_iff_getElem.1 s.nodup_names j i (by simp; omega) (by simpa using hi) hj
  simpa using hne

lemma eq_of_mem {g : FieldDescriptor} (hf : f ∈ s.fields) (hg : g ∈ s.fields)
    (h : f.name = g.name) : f = g := by
  obtain ⟨i, hi⟩ := List.mem_iff_getElem?.1 hf
  obtain ⟨j, hj⟩ := List.mem_iff_getElem?.1 hg
  have hplace := position?_eq_some hi
  rw [h, position?_eq_some hj] at hplace
  cases hplace
  exact Option.some.inj (hi.symm.trans hj)

lemma field_of_vectorField? {k : EntityKind} (h : s.vectorField? k = some name) :
    ∃ f ∈ s.fields, f.name = name ∧ f.encoding = .vector k := by
  obtain ⟨f, hf, rfl⟩ := Option.map_eq_some_iff.1 h
  exact ⟨f, List.mem_of_find?_eq_some hf, rfl, by simpa using List.find?_some hf⟩

lemma field_of_nestedField? {k : EntityKind} (h : s.nestedField? k = some name) :
    ∃ f ∈ s.fields, f.name = name ∧ f.encoding = .nested k := by
  obtain ⟨f, hf, rfl⟩ := Option.map_eq_some_iff.1 h
  exact ⟨f, List.mem_of_find?_eq_some hf, rfl, by simpa using List.find?_some hf⟩

lemma field_of_position? (h : s.position? name = some i) :
    ∃ f, s.fields[i]? = some f ∧ f.name = name := by
  obtain ⟨hi, hname, -⟩ := List.findIdx?_eq_some_iff_getElem.1 h
  exact ⟨s.fields[i], List.getElem?_eq_getElem hi, by simpa using hname⟩

end Schema

def SchemaSet.defaultOf (set : SchemaSet) (k : EntityKind) (f : FieldDescriptor)
    (hf : f ∈ set.fields k) : FieldValue :=
  f.defaultValue (fun k _ => Record.new set k) (set.below k f hf)

namespace Record

variable {r : Record} {f g : FieldDescriptor} {i : Nat}

lemma lookup_zip (fs : List FieldDescriptor) (vs : List (Option FieldValue)) (name : String) :
    lookup (fs.zip vs) name = (fs.findIdx? (·.name = name)).bind fun i => vs[i]?.join := by
  induction fs generalizing vs with
  | nil => rfl
  | cons f fs ih =>
    cases vs with
    | nil => simp [lookup, List.findIdx?_cons]
    | cons v? vs =>
      rw [List.zip_cons_cons, List.findIdx?_cons]
      by_cases hname : f.name = name
      · subst hname
        simp [lookup_cons_self]
      · rw [lookup_cons_of_ne hname, ih]
        simp only [hname, decide_false, Bool.false_eq_true, if_false, Option.bind_map]
        rfl

lemma get?_eq (r : Record) (name : String) :
    r.get? name = (r.schema.position? name).bind fun i => r.values[i]?.join :=
  lookup_zip _ _ _

lemma get?_of_field (hf : r.schema.fields[i]? = some f) : r.get? f.name = r.values[i]?.join := by
  rw [get?_eq, Schema.position?_eq_some hf, Option.bind_some]

lemma get?_of_value {v? : Option FieldValue} (hf : r.schema.fields[i]? = some f)
    (hv : r.values[i]? = some v?) : r.get? f.name = v? := by
  rw [get?_of_field hf, hv, Option.join_some]

lemma get?_of_slot {v? : Option FieldValue} (h : r.slots[i]? = some (f, v?)) :
    r.get? f.name = v? := by
  obtain ⟨hf, hv⟩ := List.getElem?_zip_eq_some.1 h
  exact get?_of_value hf hv

lemma lt_of_field (hlen : r.values.length = r.descriptors.length)
    (hf : r.schema.fields[i]? = some f) : i < r.values.length := by
  rw [hlen]
  exact (List.getElem?_eq_some_iff.1 hf).1

lemma exists_of_get? {name : String} {v : FieldValue} (h : r.get? name = some v) :
    ∃ f ∈ r.descriptors, f.name = name := by
  rw [get?_eq, Option.bind_eq_some_iff] at h
  obtain ⟨i, hi, -⟩ := h
  obtain ⟨f, hf, hname⟩ := Schema.field_of_position? hi
  exact ⟨f, List.mem_of_getElem? hf, hname⟩

lemma length_put (r : Record) (i : Nat) (u : FieldValue) :
    (r.put i u).values.length = r.values.length :=
  List.length_set

lemma get?_put (hf : r.schema.fields[i]? = some f) (hi : i < r.values.length) (u : FieldValue)
    (name : String) : (r.put i u).get? name = if name = f.name then some u else r.get? name := by
  have hput : (r.put i u).get? name =
      (r.schema.position? name).bind fun j => (r.values.set i (some u))[j]?.join := get?_eq _ _
  rw [hput]
  split
  · rename_i hname
    rw [hname, Schema.position?_eq_some hf, Option.bind_some, List.getElem?_set_self hi,
      Option.join_some]
  · rename_i hname
    rw [get?_eq]
    cases hj : r.schema.position? name with
    | none => rfl
    | some j =>
      obtain ⟨g, hg, rfl⟩ := Schema.field_of_position? hj
      have hne : i ≠ j := by
        rintro rfl
        cases hf.symm.trans hg
        exact hname rfl
      rw [Option.bind_some, Option.bind_some, List.getElem?_set_ne hne]

/-! ### Places by name -/

lemma nested?_map_fst (r : Record) (name : String) :
    (r.nested? name).map (·.1) = r.record? name := by
  rw [nested?, record?, get?_eq]
  cases r.schema.position? name with
  | none => rfl
  | some i => cases h : (r.values[i]?.join).bind FieldValue.record? <;> simp [h]

lemma vector?_map_fst (r : Record) (name : String) :
    (r.vector? name).map (·.1) = r.records? name := by
  rw [vector?, records?, get?_eq]
  cases r.schema.position? name with
  | none => rfl
  | some i => cases h : (r.values[i]?.join).bind FieldValue.records? <;> simp [h]

lemma exists_field_of_nested? {name : String} {inner : Record} {put : Record → Record}
    (h : r.nested? name = some (inner, put)) :
    ∃ i f, r.schema.fields[i]? = some f ∧ f.name = name ∧
      r.values[i]? = some (some (.record inner)) ∧ put = fun x => r.put i (.record x) := by
  obtain ⟨i, hi, hv, hput⟩ := nested?_eq_some h
  obtain ⟨f, hf, hname⟩ := Schema.field_of_position? hi
  exact ⟨i, f, hf, hname, hv, hput⟩

lemma exists_field_of_vector? {name : String} {xs : List Record} {put : List Record → Record}
    (h : r.vector? name = some (xs, put)) :
    ∃ i f, r.schema.fields[i]? = some f ∧ f.name = name ∧
      r.values[i]? = some (some (.records xs)) ∧ put = fun ys => r.put i (.records ys) := by
  obtain ⟨i, hi, hv, hput⟩ := vector?_eq_some h
  obtain ⟨f, hf, hname⟩ := Schema.field_of_position? hi
  exact ⟨i, f, hf, hname, hv, hput⟩

lemma get?_of_nested? {name : String} {inner : Record} {put : Record → Record}
    (h : r.nested? name = some (inner, put)) (x : Record) (other : String) :
    (put x).get? other = if other = name then some (.record x) else r.get? other := by
  obtain ⟨i, f, hf, rfl, hv, rfl⟩ := exists_field_of_nested? h
  exact get?_put hf (List.getElem?_eq_some_iff.1 hv).1 _ other

lemma get?_of_vector? {name : String} {xs : List Record} {put : List Record → Record}
    (h : r.vector? name = some (xs, put)) (ys : List Record) (other : String) :
    (put ys).get? other = if other = name then some (.records ys) else r.get? other := by
  obtain ⟨i, f, hf, rfl, hv, rfl⟩ := exists_field_of_vector? h
  exact get?_put hf (List.getElem?_eq_some_iff.1 hv).1 _ other

/-! ### Conditions by name -/

lemma lookup_take {slots : List (FieldDescriptor × Option FieldValue)} {j : Nat}
    {v? : Option FieldValue} (hj : slots[j]? = some (g, v?)) (hji : j < i) :
    lookup (slots.take i) g.name = lookup slots g.name := by
  have hmem : (g, v?) ∈ slots.take i := by
    refine List.mem_iff_getElem?.2 ⟨j, ?_⟩
    rw [List.getElem?_take_of_lt hji, hj]
  have hfound : ((slots.take i).find? (·.1.name = g.name)).isSome = true :=
    List.find?_isSome.2 ⟨_, hmem, by simp⟩
  conv_rhs => rw [← List.take_append_drop i slots]
  obtain ⟨p, hp⟩ := Option.isSome_iff_exists.1 hfound
  rw [lookup, lookup, List.find?_append, hp, Option.some_or]

lemma holds_greaterThan (source : String) (bound : Int)
    (slots : List (FieldDescriptor × Option FieldValue)) :
    (Presence.greaterThan source bound).holds slots =
      ((lookup slots source).bind FieldValue.int?).any (bound < ·) := rfl

lemma holds_take (hlen : r.values.length = r.descriptors.length)
    (hf : r.schema.fields[i]? = some f) :
    f.presence.holds (r.slots.take i) = f.presence.holds r.slots := by
  cases hp : f.presence with
  | always => rfl
  | greaterThan source bound =>
    obtain ⟨j, g, hji, hg, rfl, -⟩ := r.schema.source_before hf hp
    have hj := lt_of_field hlen hg
    have hslot : r.slots[j]? = some (g, r.values[j]) :=
      List.getElem?_zip_eq_some.2 ⟨hg, List.getElem?_eq_getElem hj⟩
    rw [holds_greaterThan, holds_greaterThan, lookup_take hslot hji]

lemma holds_congr_int? {r q : Record} {p : Presence}
    (h : ∀ source bound, p = .greaterThan source bound → q.int? source = r.int? source) :
    p.holds q.slots = p.holds r.slots := by
  cases p with
  | always => rfl
  | greaterThan source bound => exact congrArg (Option.any (bound < ·)) (h source bound rfl)

/-! ### Settling by name -/

lemma settle_getElem? {n : Nat} (make : (k : EntityKind) → k.rank < n → Record)
    (earlier : List (FieldDescriptor × Option FieldValue))
    {todo : List (FieldDescriptor × Option FieldValue)} (hb : ∀ p ∈ todo, p.1.encoding.Below n)
    {v? : Option FieldValue} (hi : todo[i]? = some (f, v?)) :
    (settle make earlier todo hb)[i]? = some (
      if f.presence.holds
        (earlier ++ ((todo.map (·.1)).zip (settle make earlier todo hb)).take i) then
        some (v?.getD (f.defaultValue make (hb _ (List.mem_of_getElem? hi))))
      else none) := by
  -- the slots before grow by the one that is settled first
  induction todo generalizing earlier i with
  | nil => simp at hi
  | cons p todo ih =>
    obtain ⟨g, w?⟩ := p
    cases i with
    | zero =>
      cases hi
      simp [settle]
    | succ i =>
      have hrest := ih (earlier ++ [(g, if g.presence.holds earlier then
        some (w?.getD (g.defaultValue make (hb _ List.mem_cons_self))) else none)])
        (fun q hq => hb q (List.mem_cons_of_mem _ hq)) hi
      simpa [settle] using hrest

lemma length_settle {n : Nat} {make : (k : EntityKind) → k.rank < n → Record}
    {earlier todo : List (FieldDescriptor × Option FieldValue)}
    (hb : ∀ p ∈ todo, p.1.encoding.Below n) :
    (settle make earlier todo hb).length = todo.length := by
  induction todo generalizing earlier with
  | nil => rfl
  | cons p todo ih =>
    simp [settle, ih fun q hq => hb q (List.mem_cons_of_mem _ hq)]

lemma length_resettle (hlen : r.values.length = r.descriptors.length) :
    r.resettle.values.length = r.descriptors.length := by
  have h : r.resettle.values.length = r.slots.length := length_settle _
  rw [h, slots, List.length_zip, hlen, Nat.min_self]

lemma get?_resettle (hlen : r.values.length = r.descriptors.length) (hf : f ∈ r.descriptors) :
    r.resettle.get? f.name = if f.presence.holds r.resettle.slots then
      some ((r.get? f.name).getD (r.schemas.defaultOf r.kind f hf)) else none := by
  obtain ⟨i, hi⟩ := List.mem_iff_getElem?.1 hf
  have hfield : r.schema.fields[i]? = some f := hi
  have hlt := lt_of_field hlen hfield
  have hslot : ((r.schemas.fields r.kind).zip r.values)[i]? = some (f, r.values[i]) :=
    List.getElem?_zip_eq_some.2 ⟨hi, List.getElem?_eq_getElem hlt⟩
  have hfields : ((r.schemas.fields r.kind).zip r.values).map (·.1) = r.schemas.fields r.kind :=
    List.map_fst_zip (Nat.le_of_eq hlen.symm)
  have hsettled := settle_getElem? (fun k _ => new r.schemas k) []
    (below_zip _ (r.schemas.below r.kind)) hslot
  rw [List.nil_append, hfields] at hsettled
  have hvalue : r.resettle.values[i]? = some (if f.presence.holds (r.resettle.slots.take i) then
      some (r.values[i].getD (r.schemas.defaultOf r.kind f hf)) else none) := hsettled
  have hholds : f.presence.holds (r.resettle.slots.take i) = f.presence.holds r.resettle.slots :=
    holds_take (length_resettle hlen) hfield
  have hget : r.resettle.get? f.name = r.resettle.values[i]?.join := get?_of_field hfield
  rw [hget, hvalue, hholds, get?_of_slot (r := r) hslot, Option.join_some]

end Record

end CoinScript
