import CoinScript.Proofs.Record.RoundTrip

/-!
Which layouts take room on the wire, and which of the rules of a schema decide it.

There is nothing between the two: either every record of a kind takes a byte, or none takes any. A
layout takes none exactly if it has nothing but byte strings of length zero and, in place, entities
of such a kind. So layouts that must have a vector always take room.
-/

namespace CoinScript

/-- **The first integer of a layout has no condition**: it would look at an earlier integer. -/
lemma Schema.exists_always_int {kind : EntityKind} (s : Schema kind) {f : FieldDescriptor}
    (hf : f ∈ s.fields) (hp : f.presence ≠ .always) :
    ∃ g ∈ s.fields, g.presence = .always ∧ g.encoding.isInt = true := by
  obtain ⟨i, hi⟩ := List.mem_iff_getElem?.1 hf
  clear hf
  -- each condition leads on to an integer before its own field
  induction i using Nat.strongRecOn generalizing f with
  | _ i ih =>
    cases hcond : f.presence with
    | always => exact absurd hcond hp
    | greaterThan source bound =>
      obtain ⟨j, g, hji, hg, -, hint⟩ := s.source_before hi hcond
      by_cases always : g.presence = .always
      · exact ⟨g, List.mem_of_getElem? hg, always, hint⟩
      · exact ih j hji always hg

lemma FieldEncoding.occupies_congr {entity entity' : EntityKind → Bool} {e : FieldEncoding}
    (h : ∀ k, e.child? = some k → entity k = entity' k) :
    e.occupies entity = e.occupies entity' := by
  cases e with
  | nested k => exact h k rfl
  | _ => rfl

namespace SchemaSet

variable {set : SchemaSet} {k : EntityKind}

/-! ### The test looks as deep as it must -/

lemma occupiesBelow_congr {n m : Nat} (hn : k.rank < n) (hm : k.rank < m) :
    set.occupiesBelow n k = set.occupiesBelow m k := by
  induction n generalizing m k with
  | zero => omega
  | succ n ih =>
    obtain ⟨m, rfl⟩ : ∃ m', m = m' + 1 := ⟨m - 1, by omega⟩
    have hfield : ∀ f ∈ set.fields k, f.encoding.occupies (set.occupiesBelow n) =
        f.encoding.occupies (set.occupiesBelow m) := by
      intro f hf
      refine FieldEncoding.occupies_congr fun child hchild => ?_
      have hlt := set.below k f hf child hchild
      exact ih (by omega) (by omega)
    rw [Bool.eq_iff_iff]
    simp only [occupiesBelow, List.any_eq_true, Bool.and_eq_true]
    refine exists_congr fun f => and_congr_right fun hf => ?_
    rw [hfield f hf]

lemma occupies_iff : set.occupies k = true ↔
    ∃ f ∈ set.fields k, f.presence = .always ∧ f.encoding.occupies set.occupies = true := by
  have hfield : ∀ f ∈ set.fields k, f.encoding.occupies (set.occupiesBelow k.rank) =
      f.encoding.occupies set.occupies := by
    intro f hf
    refine FieldEncoding.occupies_congr fun child hchild => ?_
    have hlt := set.below k f hf child hchild
    exact occupiesBelow_congr hlt child.rank_lt_succ
  unfold occupies
  simp only [occupiesBelow, List.any_eq_true, Bool.and_eq_true, decide_eq_true_eq]
  refine exists_congr fun f => and_congr_right fun hf => ?_
  rw [hfield f hf]
  rfl

/-! ### Layouts without room -/

/-- No value of an encoding takes a byte: it is a byte string of length zero, or an entity of a
kind without room in place. -/
def Blank (set : SchemaSet) (e : FieldEncoding) : Prop :=
  e = .fixedBytes 0 ∨ ∃ k, e = .nested k ∧ set.occupies k = false

lemma blank_iff {e : FieldEncoding} : set.Blank e ↔ e.occupies set.occupies = false := by
  cases e <;> simp [Blank, FieldEncoding.occupies]

theorem occupies_eq_false_iff :
    set.occupies k = false ↔ ∀ f ∈ set.fields k, set.Blank f.encoding := by
  rw [← Bool.not_eq_true, occupies_iff]
  constructor
  · intro hnone f hf
    rw [blank_iff]
    by_contra hocc
    rw [Bool.not_eq_false] at hocc
    have hcond : f.presence ≠ .always := fun always => hnone ⟨f, hf, always, hocc⟩
    -- a condition looks at an integer before it, and the first integer has no condition
    obtain ⟨g, hg, always, hint⟩ := (set.get k).exists_always_int hf hcond
    refine hnone ⟨g, hg, always, ?_⟩
    cases he : g.encoding with
    | int width signed => rfl
    | _ =>
      rw [he] at hint
      cases hint
  · rintro hblank ⟨f, hf, -, hocc⟩
    rw [blank_iff.1 (hblank f hf)] at hocc
    cases hocc

lemma occupies_of_vector {f : FieldDescriptor} {child : EntityKind} (hf : f ∈ set.fields k)
    (he : f.encoding = .vector child) : set.occupies k = true := by
  by_contra hocc
  rw [Bool.not_eq_true] at hocc
  have hblank := occupies_eq_false_iff.1 hocc f hf
  simp [Blank, he] at hblank

lemma occupies_of_vectorCount {child : EntityKind}
    (h : Schema.vectorCount (set.fields k) child = 1) : set.occupies k = true := by
  obtain ⟨f, hf, he⟩ := List.countP_pos_iff.1 (h.symm ▸ Nat.one_pos)
  exact occupies_of_vector hf (of_decide_eq_true he)

theorem occupies_transaction (set : SchemaSet) : set.occupies .transaction = true := by
  have hvalid := set.transaction.valid
  simp only [Schema.firstFault?, Schema.vectorFault?, Option.or_eq_none_iff] at hvalid
  have hcount : Schema.vectorCount set.transaction.fields .txIn = 1 := by
    by_contra hne
    simp [hne] at hvalid
  exact occupies_of_vectorCount hcount

theorem occupies_block (set : SchemaSet) : set.occupies .block = true := by
  have hvalid := set.block.valid
  simp only [Schema.firstFault?, Schema.vectorFault?, Option.or_eq_none_iff] at hvalid
  have hcount : Schema.vectorCount set.block.fields .transaction = 1 := by
    by_contra hne
    simp [hne] at hvalid
  exact occupies_of_vectorCount hcount

end SchemaSet

/-! ### Their records -/

lemma FieldValue.Matches.write_fixedBytes_zero {set : SchemaSet} {v : FieldValue}
    (h : v.Matches set (.fixedBytes 0)) : v.write (.fixedBytes 0) = [] := by
  generalize hw : 0 = w at h
  cases h with
  | fixedBytes b => exact List.length_eq_zero_iff.1 hw.symm

namespace Record

variable {set : SchemaSet} {k : EntityKind} {r : Record}
  {earlier : List (FieldDescriptor × Option FieldValue)} {fs : List FieldDescriptor}
  {vs : List (Option FieldValue)}

lemma Settled.writeSlots_eq_nil (h : Settled set earlier fs vs)
    (hw : ∀ f ∈ fs, ∀ v : FieldValue, v.Matches set f.encoding → v.write f.encoding = []) :
    writeSlots fs vs = [] := by
  induction fs generalizing earlier vs with
  | nil =>
    cases h
    exact writeSlots_nil
  | cons f fs ih =>
    have hrest := fun g hg => hw g (List.mem_cons_of_mem _ hg)
    cases h with
    | filled holds fits rest =>
      rw [writeSlots, writeSlot, hw f List.mem_cons_self _ fits, List.nil_append, ih rest hrest]
    | absent fails rest => rw [writeSlots, writeSlot, List.nil_append, ih rest hrest]

theorem serialize_eq_nil (h : set.occupies k = false) (hr : r.WellFormed set k) :
    r.serialize = [] := by
  -- what a layout holds in place is of a lower rank
  induction hrank : k.rank using Nat.strongRecOn generalizing k r with
  | _ n ih =>
    subst hrank
    cases hr with
    | mk settled =>
      rw [serialize]
      refine settled.writeSlots_eq_nil fun f hf v hv => ?_
      rcases SchemaSet.occupies_eq_false_iff.1 h f hf with he | ⟨child, he, hchild⟩
      · rw [he] at hv ⊢
        exact hv.write_fixedBytes_zero
      · have hlt : child.rank < k.rank := set.below k f hf child (by rw [he]; rfl)
        rw [he] at hv ⊢
        cases hv with
        | nested wf =>
          rw [FieldValue.write]
          exact ih _ hlt hchild wf rfl

end Record

end CoinScript
