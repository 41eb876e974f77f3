import CoinScript.Proofs.Record.Handled
import CoinScript.Proofs.Record.Reachable
import Mathlib.Data.List.Basic

/-!
How deep records are nested.

Making a record, reading and writing it go on to the records in it, and so on. Here each of them is
cut off after so many levels, with something else done in place of the deeper ones. Entities are of
lower rank than what they lie in, so where as many levels are left as the rank of a kind tells, the
cut is never come to, and it makes no difference what is done there. A record may also have been put
where one of another kind should be. Then it is written all the same, but its rank tells nothing.
-/

namespace CoinScript

variable {set : SchemaSet} {k : EntityKind} {d m n : Nat}

lemma FieldEncoding.below_four (e : FieldEncoding) : e.Below 4 := fun k _ => k.rank_lt

/-! ### New records -/

section

variable {n' : Nat} {make : (k : EntityKind) → k.rank < n → Record}
  {make' : (k : EntityKind) → k.rank < n' → Record}

lemma FieldDescriptor.defaultValue_congr
    (h : ∀ k hn hn', k.rank < m → make k hn = make' k hn') {f : FieldDescriptor}
    (hm : f.encoding.Below m) (hb : f.encoding.Below n) (hb' : f.encoding.Below n') :
    f.defaultValue make hb = f.defaultValue make' hb' := by
  obtain ⟨name, e, presence, default?, tags⟩ := f
  cases e with
  | int w signed => cases signed <;> rfl
  | nested k => exact congrArg FieldValue.record (h k _ _ (hm k rfl))
  | _ => rfl

lemma Record.settle_congr (h : ∀ k hn hn', k.rank < m → make k hn = make' k hn')
    {earlier todo : List (FieldDescriptor × Option FieldValue)}
    (hm : ∀ p ∈ todo, p.1.encoding.Below m) (hb : ∀ p ∈ todo, p.1.encoding.Below n)
    (hb' : ∀ p ∈ todo, p.1.encoding.Below n') :
    settle make earlier todo hb = settle make' earlier todo hb' := by
  induction todo generalizing earlier with
  | nil => rfl
  | cons p todo ih =>
    obtain ⟨f, v?⟩ := p
    have hdefault := FieldDescriptor.defaultValue_congr h (hm _ List.mem_cons_self)
      (hb _ List.mem_cons_self) (hb' _ List.mem_cons_self)
    rw [settle, settle, hdefault, ih fun q hq => hm q (List.mem_cons_of_mem _ hq)]

end

namespace Record

/-- A new record, with something else in place of the records that are nested deeper in it. -/
def newWithin (set : SchemaSet) (cut : EntityKind → Record) : Nat → EntityKind → Record
  | 0, k => cut k
  | d + 1, k =>
    mk set k <| settle (n := 4) (fun k _ => newWithin set cut d k) []
      ((set.fields k).zip (List.replicate (set.fields k).length none))
      fun p _ => p.1.encoding.below_four

lemma newWithin_eq_newBelow (cut : EntityKind → Record) (hd : k.rank < d) (hn : k.rank < n) :
    newWithin set cut d k = newBelow set n k hn := by
  induction d generalizing k n with
  | zero => exact absurd hd (Nat.not_lt_zero _)
  | succ d ih =>
    cases n with
    | zero => exact absurd hn (Nat.not_lt_zero _)
    | succ n =>
      rw [newWithin, newBelow]
      congr 1
      refine settle_congr (m := k.rank) (fun k' _ hn' hlt => ih (by omega) hn') ?_ _ _
      exact below_zip _ (set.below k)

/-- **New records** are made within the levels that the rank tells. -/
lemma newWithin_eq (cut : EntityKind → Record) (hd : k.rank < d) :
    newWithin set cut d k = new set k :=
  newWithin_eq_newBelow cut hd _

lemma newBelow_eq_new (hn : k.rank < n) : newBelow set n k hn = new set k := by
  rw [← newWithin_eq_newBelow (new set) hn hn, newWithin_eq (new set) hn]

end Record

/-! ### Reading -/

namespace Read

section

variable {n' : Nat} {entity : (k : EntityKind) → k.rank < n → Read Record}
  {entity' : (k : EntityKind) → k.rank < n' → Read Record}

lemma field_congr (h : ∀ k hn hn', k.rank < m → entity k hn = entity' k hn') {e : FieldEncoding}
    (hm : e.Below m) (hb : e.Below n) (hb' : e.Below n') :
    field entity e hb = field entity' e hb' := by
  cases e with
  | int w signed => cases signed <;> rfl
  | nested k => rw [field, field, h k _ (hb' k rfl) (hm k rfl)]
  | vector k => rw [field, field, h k _ (hb' k rfl) (hm k rfl)]
  | _ => rfl

lemma slots_congr (h : ∀ k hn hn', k.rank < m → entity k hn = entity' k hn')
    {earlier : List (FieldDescriptor × Option FieldValue)} {todo : List FieldDescriptor}
    (hm : ∀ f ∈ todo, f.encoding.Below m) (hb : ∀ f ∈ todo, f.encoding.Below n)
    (hb' : ∀ f ∈ todo, f.encoding.Below n') :
    slots entity earlier todo hb = slots entity' earlier todo hb' := by
  induction todo generalizing earlier with
  | nil => rfl
  | cons f todo ih =>
    have hfield := field_congr h (hm f List.mem_cons_self) (hb f List.mem_cons_self)
      (hb' f List.mem_cons_self)
    have hrest := fun e => @ih e (fun g hg => hm g (List.mem_cons_of_mem _ hg))
      (fun g hg => hb g (List.mem_cons_of_mem _ hg)) (fun g hg => hb' g (List.mem_cons_of_mem _ hg))
    simp only [slots, hfield, hrest]

end

/-- A record, with something else read in place of the records that are nested deeper in it. -/
def recordWithin (set : SchemaSet) (cut : EntityKind → Read Record) : Nat → EntityKind → Read Record
  | 0, k => cut k
  | d + 1, k => do
    let values ← slots (n := 4) (fun k _ => recordWithin set cut d k) [] (set.fields k)
      fun f _ => f.encoding.below_four
    return .mk set k values

lemma recordWithin_eq_recordBelow (cut : EntityKind → Read Record) (hd : k.rank < d)
    (hn : k.rank < n) : recordWithin set cut d k = recordBelow set n k hn := by
  induction d generalizing k n with
  | zero => exact absurd hd (Nat.not_lt_zero _)
  | succ d ih =>
    cases n with
    | zero => exact absurd hn (Nat.not_lt_zero _)
    | succ n =>
      have hlower : ∀ f ∈ set.fields k, f.encoding.Below n := fun f hf c hc =>
        Nat.lt_of_lt_of_le (set.below k f hf c hc) (Nat.le_of_lt_succ hn)
      have hslots : slots (n := 4) (fun k _ => recordWithin set cut d k) [] (set.fields k)
          (fun f _ => f.encoding.below_four) = slots (recordBelow set n) [] (set.fields k) hlower :=
        slots_congr (m := k.rank) (fun k' _ hn' hlt => ih (by omega) hn') (set.below k) _ _
      change _ = (do
        let values ← slots (recordBelow set n) [] (set.fields k) hlower
        return Record.mk set k values)
      rw [recordWithin, hslots]

/-- **Records are read**, or refused, within the levels that the rank tells, whatever the bytes. -/
lemma recordWithin_eq (cut : EntityKind → Read Record) (hd : k.rank < d) :
    recordWithin set cut d k = record set k :=
  recordWithin_eq_recordBelow cut hd _

end Read

/-! ### Writing -/

mutual

def Record.depth : Record → Nat
  | .mk set k values => Record.slotsDepth (set.fields k) values + 1

def Record.slotsDepth : List FieldDescriptor → List (Option FieldValue) → Nat
  | _ :: fs, v? :: vs => max (Record.slotDepth v?) (Record.slotsDepth fs vs)
  | _, _ => 0

def Record.slotDepth : Option FieldValue → Nat
  | none => 0
  | some v => v.depth

def FieldValue.depth : FieldValue → Nat
  | .record r => r.depth
  | .records rs => Record.allDepth rs
  | _ => 0

def Record.allDepth : List Record → Nat
  | [] => 0
  | r :: rs => max r.depth (Record.allDepth rs)

end

lemma Record.allDepth_le_iff {rs : List Record} : allDepth rs ≤ d ↔ ∀ x ∈ rs, x.depth ≤ d := by
  induction rs with
  | nil => simp [allDepth]
  | cons r rs ih => rw [allDepth, Nat.max_le, ih, List.forall_mem_cons]

lemma FieldValue.depth_le_iff {v : FieldValue} : v.depth ≤ d ↔ ∀ x ∈ v.parts, x.depth ≤ d := by
  cases v with
  | record r => simp [FieldValue.depth, FieldValue.parts]
  | records rs => simp [FieldValue.depth, FieldValue.parts, Record.allDepth_le_iff]
  | _ => simp [FieldValue.depth, FieldValue.parts]

namespace Record

variable {r : Record} {inner : Record → Bytes}

def slotParts (v? : Option FieldValue) : List Record := v?.elim [] FieldValue.parts

lemma slotDepth_le_iff {v? : Option FieldValue} :
    slotDepth v? ≤ d ↔ ∀ x ∈ slotParts v?, x.depth ≤ d := by
  cases v? with
  | none => simp [slotDepth, slotParts]
  | some v => exact FieldValue.depth_le_iff

lemma slotsDepth_le_iff {fs : List FieldDescriptor} {vs : List (Option FieldValue)} :
    slotsDepth fs vs ≤ d ↔ ∀ p ∈ fs.zip vs, ∀ x ∈ slotParts p.2, x.depth ≤ d := by
  induction fs generalizing vs with
  | nil => simp [slotsDepth]
  | cons f fs ih =>
    cases vs with
    | nil => simp [slotsDepth]
    | cons v? vs =>
      rw [slotsDepth, Nat.max_le, slotDepth_le_iff, ih, List.zip_cons_cons, List.forall_mem_cons]

lemma depth_le_iff : r.depth ≤ d + 1 ↔ ∀ p ∈ r.slots, ∀ x ∈ slotParts p.2, x.depth ≤ d := by
  obtain ⟨set, k, values⟩ := r
  rw [depth, Nat.succ_le_succ_iff, slotsDepth_le_iff]
  rfl

lemma depth_pos (r : Record) : 0 < r.depth := by
  obtain ⟨set, k, values⟩ := r
  rw [depth]
  exact Nat.succ_pos _

/-- The bytes of a slot, in which `inner` writes the records. -/
def writeSlotWith (inner : Record → Bytes) : FieldEncoding → Option FieldValue → Bytes
  | .nested _, some (.record r) => inner r
  | .vector _, some (.records rs) => CompactSize.encode rs.length ++ rs.flatMap inner
  | e, v? => writeSlot e v?

/-- The bytes of a record, with others in place of those of the records nested deeper in it. -/
def writeWithin (cut : Record → Bytes) : Nat → Record → Bytes
  | 0, r => cut r
  | d + 1, r => r.slots.flatMap fun p => writeSlotWith (writeWithin cut d) p.1.encoding p.2

lemma writeAll_eq (rs : List Record) : writeAll rs = rs.flatMap serialize := by
  induction rs with
  | nil => simp [writeAll]
  | cons r rs ih => rw [writeAll, ih, List.flatMap_cons]

lemma writeSlots_eq (fs : List FieldDescriptor) (vs : List (Option FieldValue)) :
    writeSlots fs vs = (fs.zip vs).flatMap fun p => writeSlot p.1.encoding p.2 := by
  induction fs generalizing vs with
  | nil => simp [writeSlots]
  | cons f fs ih =>
    cases vs with
    | nil => simp [writeSlots]
    | cons v? vs => rw [writeSlots, ih, List.zip_cons_cons, List.flatMap_cons]

lemma writeSlotWith_eq {e : FieldEncoding} {v? : Option FieldValue}
    (h : ∀ x ∈ slotParts v?, inner x = x.serialize) :
    writeSlotWith inner e v? = writeSlot e v? := by
  unfold writeSlotWith
  split
  · rename_i k r
    rw [writeSlot, FieldValue.write]
    exact h r (List.mem_singleton_self r)
  · rename_i k rs
    rw [writeSlot, FieldValue.write, writeAll_eq]
    exact congrArg _ (List.flatMap_congr h)
  · rfl

lemma writeWithin_eq (cut : Record → Bytes) (h : r.depth ≤ d) :
    writeWithin cut d r = r.serialize := by
  induction d generalizing r with
  | zero => exact absurd h (Nat.not_le.2 r.depth_pos)
  | succ d ih =>
    have hinner := depth_le_iff.1 h
    obtain ⟨set, k, values⟩ := r
    rw [writeWithin, serialize, writeSlots_eq]
    exact List.flatMap_congr fun p hp => writeSlotWith_eq fun x hx => ih (hinner p hp x hx)

/-! ### Levels and ranks -/

/-- Records in which all records, at whatever depth, are of the kind of the field that holds
them. -/
inductive WellKinded : Record → Prop
  | mk {r : Record}
      (kinds : ∀ p ∈ r.slots, ∀ x ∈ slotParts p.2, p.1.encoding.child? = some x.kind)
      (parts : ∀ p ∈ r.slots, ∀ x ∈ slotParts p.2, WellKinded x) : WellKinded r

lemma WellKinded.depth_le (h : r.WellKinded) : r.depth ≤ r.kind.rank + 1 := by
  induction h with
  | @mk r kinds _ ih =>
    refine depth_le_iff.2 fun p hp x hx => ?_
    have hfield : p.1 ∈ r.schemas.fields r.kind := (List.of_mem_zip hp).1
    have hlt : x.kind.rank < r.kind.rank :=
      r.schemas.below r.kind p.1 hfield x.kind (kinds p hp x hx)
    exact Nat.le_trans (ih p hp x hx) hlt

lemma WellFormed.wellKinded (h : r.WellFormed set k) : r.WellKinded := by
  induction hrank : k.rank using Nat.strongRecOn generalizing k r with
  | ind n ih =>
    have hparts : ∀ p ∈ r.slots, ∀ x ∈ slotParts p.2,
        p.1.encoding.child? = some x.kind ∧ x.WellKinded := by
      rintro ⟨f, v?⟩ hp x hx
      obtain ⟨i, hi⟩ := List.mem_iff_getElem?.1 hp
      obtain ⟨hf, hv⟩ := List.getElem?_zip_eq_some.1 hi
      cases v? with
      | none => cases hx
      | some v =>
        rw [descriptors, h.schemas_eq, h.kind_eq] at hf
        obtain ⟨f', hf', hm⟩ := h.settled.fits_of_filled hv
        cases hf.symm.trans hf'
        have hlower := set.below k f (List.mem_of_getElem? hf)
        exact parts_of_matches (P := fun x => f.encoding.child? = some x.kind ∧ x.WellKinded) hm
          (fun k' x hk hx => ⟨hx.kind_eq ▸ hk, ih _ (hrank ▸ hlower k' hk) hx rfl⟩) x hx
    exact .mk (fun p hp x hx => (hparts p hp x hx).1) fun p hp x hx => (hparts p hp x hx).2

lemma Reachable.wellKinded (h : Reachable set r) : r.WellKinded :=
  h.wellFormed.wellKinded

end Record

end CoinScript
