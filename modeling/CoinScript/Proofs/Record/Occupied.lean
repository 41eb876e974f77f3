import CoinScript.Proofs.Record.WellFormed
import CoinScript.Record.Wire

/-!
Layouts whose records always take up room on the wire.

A layout takes up room exactly if one of its unconditional fields does. A field that is there
on a condition does not count: the condition needs an integer, and the first integer of a
layout is unconditional.
-/

namespace CoinScript

/-- Whether every value of an encoding takes a byte, given the kinds whose records do. -/
def FieldEncoding.occupies (entity : EntityKind → Bool) : FieldEncoding → Bool
  | .fixedBytes w => w != 0
  | .nested k => entity k
  | _ => true

namespace SchemaSet

/-- Whether every record of a kind takes a byte, as far as entities nested less than `n` deep
show. -/
def occupiesBelow (set : SchemaSet) : (n : Nat) → EntityKind → Bool
  | 0, _ => false
  | n + 1, k => (set.fields k).any fun f =>
      f.presence = .always && f.encoding.occupies (set.occupiesBelow n)

/-- Whether every record of a kind takes a byte. -/
def occupies (set : SchemaSet) (k : EntityKind) : Bool :=
  set.occupiesBelow (k.rank + 1) k

def HasVector (set : SchemaSet) (k : EntityKind) : Prop :=
  ∃ owner, ∃ f ∈ set.fields owner, f.encoding = .vector k

end SchemaSet

lemma CompactSize.encode_ne_nil (n : Nat) : CompactSize.encode n ≠ [] := by
  unfold encode
  split_ifs <;> simp

variable {set : SchemaSet}

/-! ### Layouts that pass the test -/

lemma FieldValue.Matches.write_ne_nil {entity : EntityKind → Bool}
    (hent : ∀ k (r : Record), entity k = true → r.WellFormed set k → r.serialize ≠ [])
    {e : FieldEncoding} {v : FieldValue} (hv : v.Matches set e) (hs : e.Sized)
    (h : e.occupies entity = true) : v.write e ≠ [] := by
  cases hv with
  | @int w v fits =>
    have := (hs w true rfl).1
    refine List.ne_nil_of_length_pos ?_
    rwa [FieldValue.write, Bytes.length_ofIntLE]
  | @uint w n fits =>
    have := (hs w false rfl).1
    refine List.ne_nil_of_length_pos ?_
    rwa [FieldValue.write, Bytes.length_ofNatLE]
  | fixedBytes b =>
    simpa [FieldEncoding.occupies, FieldValue.write] using h
  | varBytes b => simp [FieldValue.write, CompactSize.encodeBytes, CompactSize.encode_ne_nil]
  | script s => simp [FieldValue.write, CompactSize.encodeBytes, CompactSize.encode_ne_nil]
  | hash d =>
    refine List.ne_nil_of_length_pos ?_
    rw [FieldValue.write, d.size]
    decide
  | nested wf => simpa [FieldValue.write] using hent _ _ h wf
  | vector wf => simp [FieldValue.write, CompactSize.encode_ne_nil]

namespace Record

variable {k : EntityKind} {r : Record} {earlier : List (FieldDescriptor × Option FieldValue)}
  {fs : List FieldDescriptor} {vs : List (Option FieldValue)}

lemma Settled.writeSlots_ne_nil (h : Settled set earlier fs vs) {f : FieldDescriptor}
    (hf : f ∈ fs) (always : f.presence = .always)
    (hw : ∀ v : FieldValue, v.Matches set f.encoding → v.write f.encoding ≠ []) :
    writeSlots fs vs ≠ [] := by
  induction fs generalizing earlier vs with
  | nil => cases hf
  | cons g fs ih =>
    cases h with
    | @filled _ _ v _ vs holds fits rest =>
      rw [writeSlots, writeSlot]
      rcases List.mem_cons.1 hf with rfl | hf
      · exact fun hn => hw v fits (List.append_eq_nil_iff.1 hn).1
      · exact fun hn => ih rest hf (List.append_eq_nil_iff.1 hn).2
    | absent fails rest =>
      rcases List.mem_cons.1 hf with rfl | hf
      · simp [always, Presence.holds] at fails
      · exact ih rest hf

lemma serialize_ne_nil_of_occupiesBelow {n : Nat} (h : set.occupiesBelow n k = true)
    (hr : r.WellFormed set k) : r.serialize ≠ [] := by
  induction n generalizing k r with
  | zero => cases h
  | succ n ih =>
    simp only [SchemaSet.occupiesBelow, List.any_eq_true, Bool.and_eq_true, decide_eq_true_eq] at h
    obtain ⟨f, hf, always, hocc⟩ := h
    cases hr with
    | mk settled =>
      rw [serialize]
      exact settled.writeSlots_ne_nil hf always fun v hv =>
        hv.write_ne_nil (fun _ _ => ih) (set.sound k f hf).sized hocc

theorem serialize_ne_nil (h : set.occupies k = true) (hr : r.WellFormed set k) :
    r.serialize ≠ [] :=
  serialize_ne_nil_of_occupiesBelow h hr

/-! ### Layouts that fail it -/

lemma holds_greaterThan_eq_false (h : ∀ p ∈ integers earlier, p.2 = none) (source : String)
    (bound : Int) : (Presence.greaterThan source bound).holds earlier = false := by
  have : (lookup earlier source).bind FieldValue.int? = none := by
    rw [lookup_int?]
    cases hp : (integers earlier).find? (·.1 = source) with
    | none => rfl
    | some p => exact h p (List.mem_of_find?_eq_some hp)
  simp [Presence.holds, this]

lemma no_integers_snoc (h : ∀ p ∈ integers earlier, p.2 = none) {f : FieldDescriptor}
    {v? : Option FieldValue} (hv : v?.bind FieldValue.int? = none) :
    ∀ p ∈ integers (earlier ++ [(f, v?)]), p.2 = none := by
  rw [integers_append, List.forall_mem_append]
  exact ⟨h, by simpa [integers] using hv⟩

lemma defaultValue_empty {n : Nat} {make : (k : EntityKind) → k.rank < n → Record}
    {entity : EntityKind → Bool} (hmake : ∀ k h, entity k = false → (make k h).serialize = [])
    {f : FieldDescriptor} (hf : f.Sound) (hb : f.encoding.Below n)
    (h : f.encoding.occupies entity = false) :
    (f.defaultValue make hb).write f.encoding = [] ∧ (f.defaultValue make hb).int? = none := by
  rcases f with ⟨name, e, presence, default?, tags⟩
  cases e with
  | fixedBytes w =>
    have hw : w = 0 := by simpa [FieldEncoding.occupies] using h
    subst hw
    refine ⟨?_, rfl⟩
    rcases default? with _ | _ | b
    · rfl
    · rfl
    · have hlen : b.length = 0 := by simpa [FieldDefault.fits] using hf.default_fits _ rfl
      exact List.eq_nil_of_length_eq_zero hlen
  | nested k =>
    refine ⟨?_, rfl⟩
    simp only [FieldDescriptor.defaultValue, FieldValue.write]
    exact hmake k _ h
  | int w signed => cases h
  | varBytes => cases h
  | script => cases h
  | hash => cases h
  | vector k => cases h

lemma settle_empty {n : Nat} {make : (k : EntityKind) → k.rank < n → Record}
    {entity : EntityKind → Bool} (hmake : ∀ k h, entity k = false → (make k h).serialize = [])
    (hf : ∀ f ∈ fs, f.Sound)
    (hocc : ∀ f ∈ fs, f.presence = .always → f.encoding.occupies entity = false)
    (hearlier : ∀ p ∈ integers earlier, p.2 = none)
    (hb : ∀ p ∈ fs.zip (List.replicate fs.length none), p.1.encoding.Below n) :
    writeSlots fs (settle make earlier (fs.zip (List.replicate fs.length none)) hb) = [] := by
  induction fs generalizing earlier with
  | nil => simp [writeSlots]
  | cons f fs ih =>
    have hfs : ∀ g ∈ fs, g.Sound := fun g hg => hf g (List.mem_cons_of_mem _ hg)
    have hoccs : ∀ g ∈ fs, g.presence = .always → g.encoding.occupies entity = false :=
      fun g hg => hocc g (List.mem_cons_of_mem _ hg)
    simp only [List.length_cons, List.replicate_succ, List.zip_cons_cons, settle, writeSlots]
    split
    · rename_i holds
      -- no condition holds, as none of the fields before has an integer
      have always : f.presence = .always := by
        cases hp : f.presence with
        | always => rfl
        | greaterThan source bound =>
          rw [hp, holds_greaterThan_eq_false hearlier] at holds
          cases holds
      obtain ⟨hw, hint⟩ := defaultValue_empty hmake (hf f List.mem_cons_self)
        (hb (f, none) List.mem_cons_self) (hocc f List.mem_cons_self always)
      rw [Option.getD_none, writeSlot, hw, List.nil_append]
      exact ih hfs hoccs (no_integers_snoc hearlier (by rwa [Option.bind_some])) _
    · rw [writeSlot, List.nil_append]
      exact ih hfs hoccs (no_integers_snoc hearlier rfl) _

lemma newBelow_empty {n : Nat} {h : k.rank < n} (hocc : set.occupiesBelow n k = false) :
    (newBelow set n k h).serialize = [] := by
  induction n generalizing k with
  | zero => exact absurd h (Nat.not_lt_zero _)
  | succ n ih =>
    rw [newBelow, serialize]
    refine settle_empty (fun k _ => ih) (set.sound k) ?_ (by simp [integers]) _
    intro f hf always
    simp only [SchemaSet.occupiesBelow, List.any_eq_false] at hocc
    simpa [always] using hocc f hf

theorem new_empty (h : set.occupies k = false) : (new set k).serialize = [] :=
  newBelow_empty h

end Record

end CoinScript
