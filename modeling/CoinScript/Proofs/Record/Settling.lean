import CoinScript.Proofs.Record.WellFormed
import CoinScript.Record.Edit

/-!
Settling slots makes a record well formed.

New records have defaults in all their present fields, and a record in which a value was set
has its conditional fields settled anew. Both go through `Record.settle`, which needs only
that the slots filled before hold values of their fields.
-/

namespace CoinScript

variable {set : SchemaSet}

/-! ### Defaults -/

lemma intFits_zero (w : Nat) (signed : Bool) : intFits 0 w signed := by
  have h : 0 < Nat.pow 2 (8 * min w 8 - 1) := Nat.pow_pos (by decide)
  have h' : 0 < Nat.pow 2 (8 * min w 8) := Nat.pow_pos (by decide)
  unfold intFits
  split
  · simp only [Bool.and_eq_true, decide_eq_true_eq]
    omega
  · simp only [Bool.and_eq_true, decide_eq_true_eq]
    omega

lemma nonneg_of_intFits {v : Int} {w : Nat} (h : intFits v w false) : 0 ≤ v := by
  simp only [intFits, Bool.false_eq_true, if_false, Bool.and_eq_true, decide_eq_true_eq] at h
  exact h.1

lemma FieldValue.Matches.of_intFits {v : Int} {w : Nat} {signed : Bool} (h : intFits v w signed) :
    (if signed then FieldValue.int v else .uint v.toNat).Matches set (.int w signed) := by
  cases signed with
  | true => exact .int h
  | false =>
    refine .uint ?_
    rwa [Int.toNat_of_nonneg (nonneg_of_intFits h)]

lemma FieldDescriptor.intFits_defaultInt {f : FieldDescriptor} (hf : f.Sound) {w : Nat}
    {signed : Bool} (he : f.encoding = .int w signed) : intFits f.defaultInt w signed := by
  have hd := hf.default_fits
  unfold defaultInt
  split
  · rename_i v hv
    simpa [FieldDefault.fits, he] using hd _ hv
  · exact intFits_zero w signed

lemma FieldDescriptor.length_defaultBytes {f : FieldDescriptor} (hf : f.Sound) {w : Nat}
    (he : f.encoding = .fixedBytes w) :
    (f.defaultBytes?.getD (List.replicate w 0)).length = w := by
  have hd := hf.default_fits
  unfold defaultBytes?
  split
  · rename_i b hb
    simpa [FieldDefault.fits, he] using hd _ hb
  · simp

lemma FieldDescriptor.defaultValue_matches {n : Nat}
    {make : (k : EntityKind) → k.rank < n → Record}
    (hmake : ∀ k h, (make k h).WellFormed set k) {f : FieldDescriptor} (hf : f.Sound)
    (hb : f.encoding.Below n) : (f.defaultValue make hb).Matches set f.encoding := by
  rcases f with ⟨name, e, presence, default?, tags⟩
  cases e with
  | int w signed =>
    have hm := intFits_defaultInt hf rfl
    cases signed with
    | true => exact .of_intFits hm
    | false => exact .of_intFits hm
  | fixedBytes w =>
    exact FieldValue.Matches.of_length (length_defaultBytes hf rfl)
  | varBytes => exact .varBytes _
  | script => exact .script _
  | hash => exact .hash _
  | nested k => exact .nested (hmake k _)
  | vector k => exact .vector (by simp)

namespace Record

variable {k : EntityKind} {r : Record}

/-! ### Settling -/

/-- **Slots are settled** once each has been filled or emptied in turn. -/
lemma settle_settled {n : Nat} {make : (k : EntityKind) → k.rank < n → Record}
    (hmake : ∀ k h, (make k h).WellFormed set k)
    {earlier todo : List (FieldDescriptor × Option FieldValue)}
    (hb : ∀ p ∈ todo, p.1.encoding.Below n) (hsound : ∀ p ∈ todo, p.1.Sound)
    (hfits : ∀ p ∈ todo, ∀ v, p.2 = some v → v.Matches set p.1.encoding) :
    Settled set earlier (todo.map (·.1)) (settle make earlier todo hb) := by
  induction todo generalizing earlier with
  | nil => exact .nil
  | cons p todo ih =>
    obtain ⟨f, v?⟩ := p
    -- the later fields settle behind whatever this one becomes
    have hrest := fun e => @ih e (fun q hq => hb q (List.mem_cons_of_mem _ hq))
      (fun q hq => hsound q (List.mem_cons_of_mem _ hq))
      (fun q hq => hfits q (List.mem_cons_of_mem _ hq))
    rw [settle, List.map_cons]
    cases hp : f.presence.holds earlier with
    | true =>
      refine .filled hp ?_ (hrest _)
      cases v? with
      | none =>
        exact f.defaultValue_matches hmake (hsound _ List.mem_cons_self) (hb _ List.mem_cons_self)
      | some v => exact hfits _ List.mem_cons_self v rfl
    | false => exact .absent hp (hrest _)

lemma settle_zip_settled {n : Nat} {make : (k : EntityKind) → k.rank < n → Record}
    (hmake : ∀ k h, (make k h).WellFormed set k) {fields : List FieldDescriptor}
    {values : List (Option FieldValue)} (hsound : ∀ f ∈ fields, f.Sound)
    (hlen : values.length = fields.length)
    (hfits : ∀ (i : Nat) (f : FieldDescriptor) (v : FieldValue), fields[i]? = some f →
      values[i]? = some (some v) → v.Matches set f.encoding)
    (hb : ∀ p ∈ fields.zip values, p.1.encoding.Below n) :
    Settled set [] fields (settle make [] (fields.zip values) hb) := by
  have hfields : (fields.zip values).map (·.1) = fields :=
    List.map_fst_zip (Nat.le_of_eq hlen.symm)
  have h : Settled set [] ((fields.zip values).map (·.1))
      (settle make [] (fields.zip values) hb) := by
    refine settle_settled hmake hb (fun p hp => hsound p.1 (List.of_mem_zip hp).1) ?_
    intro p hp v hv
    obtain ⟨i, hi⟩ := List.mem_iff_getElem?.1 hp
    obtain ⟨hf, hv'⟩ := List.getElem?_zip_eq_some.1 hi
    exact hfits i p.1 v hf (by rw [hv', hv])
  rwa [hfields] at h

lemma newBelow_wellFormed (n : Nat) (k : EntityKind) (h : k.rank < n) :
    (newBelow set n k h).WellFormed set k := by
  induction n generalizing k with
  | zero => exact absurd h (Nat.not_lt_zero _)
  | succ n ih =>
    rw [newBelow]
    refine .mk (settle_zip_settled ih (set.sound k) List.length_replicate ?_ _)
    intro i f v _ hv
    rw [List.getElem?_replicate] at hv
    split at hv <;> cases hv

theorem new_wellFormed (set : SchemaSet) (k : EntityKind) : (new set k).WellFormed set k :=
  newBelow_wellFormed _ k _

lemma resettle_wellFormed (hs : r.schemas = set) (hk : r.kind = k)
    (hlen : r.values.length = (set.fields k).length)
    (hfits : ∀ (i : Nat) (f : FieldDescriptor) (v : FieldValue), (set.fields k)[i]? = some f →
      r.values[i]? = some (some v) → v.Matches set f.encoding) : r.resettle.WellFormed set k := by
  subst hs hk
  exact .mk (settle_zip_settled (fun k _ => new_wellFormed _ k) (r.schemas.sound r.kind) hlen
    hfits _)

end Record

end CoinScript
