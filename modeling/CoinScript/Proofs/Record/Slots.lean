import CoinScript.Proofs.Record.RoundTrip

/-!
What is in the slots of well-formed records.

A field without a condition has a value in each of them, and a value that leaves the record well
formed is set without a change of any other slot. Fields with different names tell records apart,
and so do bytes.
-/

namespace CoinScript.Record

variable {set : SchemaSet} {k : EntityKind} {r r' : Record} {f : FieldDescriptor}
  {earlier : List (FieldDescriptor × Option FieldValue)} {fs : List FieldDescriptor}
  {vs ws : List (Option FieldValue)}

/-! ### Fields without a condition -/

lemma Settled.cons_of_always (h : Settled set earlier (f :: fs) vs)
    (always : f.presence = .always) :
    ∃ v rest, vs = some v :: rest ∧ v.Matches set f.encoding ∧
      Settled set (earlier ++ [(f, some v)]) fs rest := by
  cases h with
  | filled _ fits rest => exact ⟨_, _, rfl, fits, rest⟩
  | absent fails _ =>
    rw [always] at fails
    cases fails

lemma Settled.of_append {gs : List FieldDescriptor} (h : Settled set earlier (fs ++ gs) vs) :
    ∃ us ws, vs = us ++ ws ∧ us.length = fs.length ∧ Settled set (earlier ++ fs.zip us) gs ws := by
  induction fs generalizing earlier vs with
  | nil => exact ⟨[], vs, rfl, rfl, by simpa using h⟩
  | cons f fs ih =>
    cases h with
    | @filled _ _ v _ _ _ _ rest =>
      obtain ⟨us, ws, rfl, hlen, hgs⟩ := ih rest
      exact ⟨some v :: us, ws, rfl, by simp [hlen], by simpa using hgs⟩
    | absent _ rest =>
      obtain ⟨us, ws, rfl, hlen, hgs⟩ := ih rest
      exact ⟨none :: us, ws, rfl, by simp [hlen], by simpa using hgs⟩

/-! ### Setting -/

lemma settle_of_settled {n : Nat} {make : (k : EntityKind) → k.rank < n → Record}
    (h : Settled set earlier fs vs) (hb : ∀ p ∈ fs.zip vs, p.1.encoding.Below n) :
    settle make earlier (fs.zip vs) hb = vs := by
  induction fs generalizing earlier vs with
  | nil =>
    cases h
    rfl
  | cons f fs ih =>
    cases h with
    | filled holds _ rest =>
      simp only [List.zip_cons_cons, settle, holds, if_true, Option.getD_some]
      rw [ih rest]
    | absent fails rest =>
      simp only [List.zip_cons_cons, settle, fails, Bool.false_eq_true, if_false]
      rw [ih rest]

lemma settle_cons_of_always {n : Nat} {make : (k : EntityKind) → k.rank < n → Record}
    {v : FieldValue} (always : f.presence = .always)
    (hb : ∀ p ∈ (f :: fs).zip (some v :: vs), p.1.encoding.Below n) :
    settle make earlier ((f :: fs).zip (some v :: vs)) hb =
      some v :: settle make (earlier ++ [(f, some v)]) (fs.zip vs)
        fun p hp => hb p (List.mem_cons_of_mem _ hp) := by
  simp only [List.zip_cons_cons, settle, always, Presence.holds, if_true, Option.getD_some]

lemma resettle_of_wellFormed (h : r.WellFormed set k) : r.resettle = r := by
  cases h with
  | mk settled =>
    unfold resettle
    congr 1
    exact settle_of_settled settled _

lemma resettle_mk (hfields : set.fields k = fs)
    (h : ∀ {n : Nat} (make : (k : EntityKind) → k.rank < n → Record) hb,
      settle make [] (fs.zip vs) hb = vs) : (mk set k vs).resettle = mk set k vs := by
  subst hfields
  exact congrArg (mk set k) (h _ _)

lemma set_mk_of_resettle (hfields : set.fields k = fs) (i : Nat) (u : FieldValue) {name : String}
    {v v₀ : FieldValue} (hi : fs.findIdx? (·.name = name) = some i)
    (hslot : (fs.zip vs)[i]? = some (f, some v₀)) (hu : f.coerce v = .ok u)
    (hws : vs.set i (some u) = ws) (hput : (mk set k ws).resettle = mk set k ws) :
    (mk set k vs).set name v = .ok (mk set k ws) := by
  subst hfields hws
  have hposition : (mk set k vs).schema.position? name = some i := hi
  have hslots : (mk set k vs).slots[i]? = some (f, some v₀) := hslot
  unfold Record.set
  simp only [hposition, hslots, hu]
  exact congrArg Except.ok hput

lemma set_mk (hfields : set.fields k = fs) (i : Nat) (u : FieldValue) {name : String}
    {v v₀ : FieldValue} (hi : fs.findIdx? (·.name = name) = some i)
    (hslot : (fs.zip vs)[i]? = some (f, some v₀)) (hu : f.coerce v = .ok u)
    (hws : vs.set i (some u) = ws) (hput : (mk set k ws).WellFormed set k) :
    (mk set k vs).set name v = .ok (mk set k ws) :=
  set_mk_of_resettle hfields i u hi hslot hu hws (resettle_of_wellFormed hput)

lemma vector?_mk (hfields : set.fields k = fs) (i : Nat) {name : String} {rs : List Record}
    (hi : fs.findIdx? (·.name = name) = some i) (hv : vs[i]? = some (some (.records rs))) :
    (mk set k vs).vector? name =
      some (rs, fun xs => mk set k (vs.set i (some (.records xs)))) := by
  subst hfields
  have hposition : (mk set k vs).schema.position? name = some i := hi
  have hvalue : (mk set k vs).values[i]? = some (some (.records rs)) := hv
  rw [vector?, hposition, Option.bind_eq_bind, Option.bind_some, hvalue]
  rfl

lemma get?_mk (hfields : set.fields k = fs) (name : String) :
    (mk set k vs).get? name = lookup (fs.zip vs) name := by
  rw [← hfields]
  rfl

/-! ### Names -/

lemma lookup_cons_self (v? : Option FieldValue)
    (rest : List (FieldDescriptor × Option FieldValue)) : lookup ((f, v?) :: rest) f.name = v? := by
  simp [lookup]

lemma lookup_cons_of_ne {name : String} {v? : Option FieldValue}
    {rest : List (FieldDescriptor × Option FieldValue)} (h : f.name ≠ name) :
    lookup ((f, v?) :: rest) name = lookup rest name := by
  simp [lookup, h]

lemma lookup_append_cons_of_ne {name : String} {v? : Option FieldValue}
    {rest : List (FieldDescriptor × Option FieldValue)} (h : f.name ≠ name) :
    lookup (earlier ++ (f, v?) :: rest) name = lookup (earlier ++ rest) name := by
  simp [lookup, List.find?_append, h]

lemma lookup_append_of_ne {name : String} {rest : List (FieldDescriptor × Option FieldValue)}
    (h : ∀ p ∈ earlier, p.1.name ≠ name) : lookup (earlier ++ rest) name = lookup rest name := by
  have hnone : earlier.find? (·.1.name = name) = none := by
    rw [List.find?_eq_none]
    simpa using h
  rw [lookup, List.find?_append, hnone, Option.none_or]
  rfl

lemma eq_of_lookup_eq (hnodup : (fs.map (·.name)).Nodup) (hv : vs.length = fs.length)
    (hw : ws.length = fs.length)
    (h : ∀ f ∈ fs, lookup (fs.zip vs) f.name = lookup (fs.zip ws) f.name) : vs = ws := by
  induction fs generalizing vs ws with
  | nil => rw [List.eq_nil_of_length_eq_zero hv, List.eq_nil_of_length_eq_zero hw]
  | cons f fs ih =>
    match vs, ws, hv, hw with
    | v :: vs, w :: ws, hv, hw =>
      rw [List.map_cons, List.nodup_cons] at hnodup
      obtain ⟨hfresh, hnodup⟩ := hnodup
      have hhead := h f List.mem_cons_self
      simp only [List.zip_cons_cons, lookup_cons_self] at hhead
      have htail : vs = ws := by
        refine ih hnodup (Nat.succ.inj hv) (Nat.succ.inj hw) fun g hg => ?_
        -- a later name is never that of the first field, which would hide its value
        have hne : f.name ≠ g.name := by
          intro hname
          exact hfresh (hname ▸ List.mem_map_of_mem hg)
        have hlater := h g (List.mem_cons_of_mem _ hg)
        simpa only [List.zip_cons_cons, lookup_cons_of_ne hne] using hlater
      rw [hhead, htail]

/-! ### Bytes -/

/-- **A well-formed record is read back from its bytes.** -/
lemma deserialize_of_wellFormed (hroom : set.Roomy) (hr : r.WellFormed set k)
    (hlen : r.serialize.length < Nat.pow 256 8) : deserialize set k r.serialize = .ok r := by
  have recovers := Read.record_recovers (fun k hk => SchemaSet.occupied_iff.1 (hroom k hk)) k
  have spans : (Cursor.ofBytes r.serialize).Spans r.serialize ⟨r.serialize.length, []⟩ :=
    ⟨(List.append_nil _).symm, (Nat.zero_add _).symm⟩
  exact deserialize_eq_ok.2 ⟨_, recovers _ _ _ hr hlen spans, rfl⟩

theorem eq_of_serialize_eq (hroom : set.Roomy) (hr : r.WellFormed set k)
    (hr' : r'.WellFormed set k) (hlen : r.serialize.length < Nat.pow 256 8)
    (h : r.serialize = r'.serialize) : r = r' := by
  have hread := deserialize_of_wellFormed hroom hr hlen
  have hread' := deserialize_of_wellFormed hroom hr' (h ▸ hlen)
  rw [← h] at hread'
  cases hread.symm.trans hread'
  rfl

end CoinScript.Record
