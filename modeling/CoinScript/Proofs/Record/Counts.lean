import CoinScript.Proofs.Record.PrefixFree
import CoinScript.Proofs.Record.Room
import CoinScript.Profile

/-!
The counts of vectors, and the check that a count is not above the number of bytes behind it.

A record tells the counts in its bytes and where they stand. Reading its bytes stops at the first
count that is above the number of bytes that follow, and gives the record back if there is none.
Whatever the bytes, no record that is read breaks the bound. Elements that take room keep to it
by themselves; a layout may have elements that take none.
-/

namespace CoinScript

/-- The count of a vector: where the bytes behind it start, and its elements. -/
structure Count where
  offset : Nat
  elements : Nat
  deriving DecidableEq

/-- The count where so many bytes are put in front. -/
def Count.shift (n : Nat) (p : Count) : Count := { p with offset := n + p.offset }

mutual

/-- The counts in the bytes of a record, from front to back. -/
def Record.counts : Record → List Count
  | .mk set k values => Record.slotCounts (set.fields k) values

def Record.slotCounts : List FieldDescriptor → List (Option FieldValue) → List Count
  | f :: fs, v? :: vs => Record.countsOf f.encoding v? ++
      (Record.slotCounts fs vs).map (·.shift (Record.writeSlot f.encoding v?).length)
  | _, _ => []

def Record.countsOf (e : FieldEncoding) : Option FieldValue → List Count
  | none => []
  | some v => FieldValue.counts e v

def FieldValue.counts : FieldEncoding → FieldValue → List Count
  | .nested _, .record r => r.counts
  | .vector _, .records rs =>
    let width := (CompactSize.encode rs.length).length
    ⟨width, rs.length⟩ :: (Record.allCounts rs).map (·.shift width)
  | _, _ => []

def Record.allCounts : List Record → List Count
  | [] => []
  | r :: rs => r.counts ++ (Record.allCounts rs).map (·.shift r.serialize.length)

end

variable {set : SchemaSet} {k : EntityKind}

lemma FieldValue.Matches.counts_leaf {e : FieldEncoding} {v : FieldValue} (hv : v.Matches set e)
    (hleaf : e.child? = none) : v.counts e = [] := by
  cases hv with
  | nested wf => cases hleaf
  | vector wf => cases hleaf
  | _ => simp [counts]

/-! ### Where the counts stand -/

/-- The bytes have the count where it says. -/
def Count.Stands (p : Count) (b : Bytes) : Prop :=
  ∃ front back, b = front ++ CompactSize.encode p.elements ++ back ∧
    p.offset = (front ++ CompactSize.encode p.elements).length

namespace Count

variable {p : Count} {a b : Bytes}

lemma Stands.append_right (h : p.Stands a) (b : Bytes) : p.Stands (a ++ b) := by
  obtain ⟨front, back, rfl, ho⟩ := h
  exact ⟨front, back ++ b, by simp, ho⟩

lemma Stands.append_left (h : p.Stands b) (a : Bytes) : (p.shift a.length).Stands (a ++ b) := by
  obtain ⟨front, back, rfl, ho⟩ := h
  exact ⟨a ++ front, back, by simp [shift], by simp [shift, ho]⟩

lemma stands_append {l l' : List Count} (h : ∀ p ∈ l, p.Stands a) (h' : ∀ p ∈ l', p.Stands b) :
    ∀ p ∈ l ++ l'.map (·.shift a.length), p.Stands (a ++ b) := by
  rw [List.forall_mem_append]
  refine ⟨fun p hp => (h p hp).append_right b, fun p hp => ?_⟩
  obtain ⟨q, hq, rfl⟩ := List.mem_map.1 hp
  exact (h' q hq).append_left a

end Count

lemma Record.allCounts_stand {rs : List Record}
    (h : ∀ r ∈ rs, ∀ p ∈ r.counts, p.Stands r.serialize) :
    ∀ p ∈ allCounts rs, p.Stands (writeAll rs) := by
  induction rs with
  | nil => simp [allCounts]
  | cons r rs ih =>
    rw [allCounts, writeAll]
    exact Count.stands_append (h r List.mem_cons_self)
      (ih fun x hx => h x (List.mem_cons_of_mem _ hx))

lemma FieldValue.counts_stand {e : FieldEncoding} {v : FieldValue} (hv : v.Matches set e)
    (h : ∀ k, e.child? = some k → ∀ r : Record, r.WellFormed set k →
      ∀ p ∈ r.counts, p.Stands r.serialize) :
    ∀ p ∈ v.counts e, p.Stands (v.write e) := by
  cases hv with
  | nested wf =>
    rw [counts, write]
    exact h _ rfl _ wf
  | @vector k rs wf =>
    have hcount : Count.Stands ⟨(CompactSize.encode rs.length).length, rs.length⟩
        (CompactSize.encode rs.length) := ⟨[], [], by simp, rfl⟩
    rw [counts, write]
    exact Count.stands_append (l := [_]) (by simpa using hcount)
      (Record.allCounts_stand fun r hr => h k rfl r (wf r hr))
  | _ => simp [counts]

lemma Record.Settled.slotCounts_stand {earlier : List (FieldDescriptor × Option FieldValue)}
    {fs : List FieldDescriptor} {vs : List (Option FieldValue)} (hs : Settled set earlier fs vs)
    (h : ∀ f ∈ fs, ∀ v : FieldValue, v.Matches set f.encoding →
      ∀ p ∈ v.counts f.encoding, p.Stands (v.write f.encoding)) :
    ∀ p ∈ slotCounts fs vs, p.Stands (writeSlots fs vs) := by
  induction fs generalizing earlier vs with
  | nil =>
    cases hs
    simp [slotCounts]
  | cons f fs ih =>
    have hrest := fun g hg => h g (List.mem_cons_of_mem _ hg)
    cases hs with
    | @filled _ _ v _ vs holds fits rest =>
      rw [slotCounts, writeSlots, countsOf, writeSlot]
      exact Count.stands_append (h f List.mem_cons_self v fits) (ih rest hrest)
    | absent fails rest =>
      rw [slotCounts, writeSlots, countsOf, writeSlot]
      exact Count.stands_append (a := []) (by simp) (ih rest hrest)

theorem Record.counts_stand {r : Record} (hr : r.WellFormed set k) :
    ∀ p ∈ r.counts, p.Stands r.serialize := by
  induction hrank : k.rank using Nat.strongRecOn generalizing k r with
  | _ n ih =>
    subst hrank
    cases hr with
    | mk settled =>
      rw [counts, serialize]
      refine settled.slotCounts_stand fun f hf v hv => FieldValue.counts_stand hv ?_
      exact fun child hchild r wf => ih _ (set.below k f hf child hchild) wf rfl

/-! ### The check -/

namespace Cursor

variable {c c' d : Cursor} {b : Bytes} {p : Count} {l l' : List Count}

/-- What the first count is refused with that is above the number of bytes behind it, if the
bytes with these counts start here. -/
def refusal? (c : Cursor) (counts : List Count) : Option Fault :=
  (counts.find? fun p => c.remaining < p.offset + p.elements).map fun p =>
    .truncated (c.offset + p.offset) p.elements (c.remaining - p.offset)

@[simp] lemma refusal?_nil : c.refusal? [] = none := rfl

lemma refusal?_eq_none : c.refusal? l = none ↔ ∀ p ∈ l, p.offset + p.elements ≤ c.remaining := by
  simp [refusal?]

lemma refusal?_append : c.refusal? (l ++ l') = (c.refusal? l).or (c.refusal? l') := by
  unfold refusal?
  rw [List.find?_append]
  cases List.find? _ l <;> rfl

lemma Spans.remaining_eq (h : c.Spans b d) : c.remaining = b.length + d.remaining := by
  simp [remaining, h.1]

lemma Spans.refusal?_count (h : c.Spans b d) {n : Nat} (hle : n ≤ d.remaining) :
    c.refusal? [⟨b.length, n⟩] = none := by
  have := h.remaining_eq
  simp only [refusal?_eq_none, List.mem_singleton, forall_eq]
  omega

lemma Spans.refusal?_count_of_lt (h : c.Spans b d) {n : Nat} (hlt : d.remaining < n) :
    c.refusal? (⟨b.length, n⟩ :: l) = some (.truncated d.offset n d.remaining) := by
  have := h.remaining_eq
  unfold refusal?
  rw [List.find?_cons_of_pos (by simp only [decide_eq_true_eq]; omega), Option.map_some, h.2]
  simp only [Option.some.injEq, Fault.truncated.injEq, true_and]
  omega

lemma Spans.refusal?_shift (h : c.Spans b d) :
    c.refusal? (l.map (·.shift b.length)) = d.refusal? l := by
  have hrem := h.remaining_eq
  have hbound (p : Count) : c.remaining < (p.shift b.length).offset + (p.shift b.length).elements ↔
      d.remaining < p.offset + p.elements := by
    simp only [Count.shift]
    omega
  unfold refusal?
  rw [List.find?_map, Option.map_map]
  have hfind : ((fun p : Count => decide (c.remaining < p.offset + p.elements)) ∘
      fun p : Count => p.shift b.length) =
        fun p : Count => decide (d.remaining < p.offset + p.elements) := by
    funext p
    simp [hbound]
  rw [hfind]
  refine Option.map_congr fun p _ => ?_
  simp only [Function.comp, Count.shift, h.2, Fault.truncated.injEq, true_and]
  omega

/-- A result, if none of the counts in the bytes from here on is refused. -/
def checked {α : Type} (c : Cursor) (counts : List Count) (result : α × Cursor) :
    Except Fault (α × Cursor) :=
  match c.refusal? counts with
  | none => .ok result
  | some e => .error e

lemma checked_of_none {α : Type} {result : α × Cursor} (h : c.refusal? l = none) :
    c.checked l result = .ok result := by
  simp [checked, h]

lemma checked_of_some {α : Type} {result : α × Cursor} {e : Fault} (h : c.refusal? l = some e) :
    c.checked l result = .error e := by
  simp [checked, h]

end Cursor

namespace Read

variable {c c' d : Cursor} {b : Bytes} {l l' : List Count}

section

variable {α β : Type} {a : α} {x : β} {m : Read α}

lemma bind_checked {f : α → Read β} (hm : m c = c.checked l (a, d)) (hs : c.Spans b d)
    (hf : f a d = d.checked l' (x, c')) :
    (m >>= f) c = c.checked (l ++ l'.map (·.shift b.length)) (x, c') := by
  change (m c >>= fun p => f p.1 p.2) = _
  rw [hm]
  cases hr : c.refusal? l with
  | some e =>
    have hfirst : c.refusal? (l ++ l'.map (·.shift b.length)) = some e := by
      rw [Cursor.refusal?_append, hr, Option.some_or]
    rw [Cursor.checked_of_some hr, Cursor.checked_of_some hfirst]
    rfl
  | none =>
    have hsame : c.refusal? (l ++ l'.map (·.shift b.length)) = d.refusal? l' := by
      rw [Cursor.refusal?_append, hr, Option.none_or, hs.refusal?_shift]
    rw [Cursor.checked_of_none hr, Cursor.checked, hsame]
    exact hf

lemma bind_pure_checked (f : α → β) (hm : m c = c.checked l (a, d)) :
    (do return f (← m)) c = c.checked l (f a, d) := by
  change (m c >>= fun p => pure (f p.1, p.2)) = _
  rw [hm]
  cases hr : c.refusal? l with
  | some e =>
    rw [Cursor.checked_of_some hr, Cursor.checked_of_some hr]
    rfl
  | none =>
    rw [Cursor.checked_of_none hr, Cursor.checked_of_none hr]
    rfl

end

/-! ### The check on bytes that are written -/

variable {n : Nat} {entity : (k : EntityKind) → k.rank < n → Read Record}

/-- The bytes of a well-formed record are read back to it, but for refused counts. Lengths and
counts are numbers of eight bytes. -/
def Checks (set : SchemaSet) (k : EntityKind) (m : Read Record) : Prop :=
  ∀ c r c', r.WellFormed set k → r.serialize.length < Nat.pow 256 8 →
    (∀ p ∈ r.counts, p.elements < Nat.pow 256 8) → c.Spans r.serialize c' →
    m c = c.checked r.counts (r, c')

lemma repeated_checks {k : EntityKind} {m : Read Record} (hm : Checks set k m)
    {rs : List Record} (hwf : ∀ r ∈ rs, r.WellFormed set k)
    (hlen : (Record.writeAll rs).length < Nat.pow 256 8)
    (hcount : ∀ p ∈ Record.allCounts rs, p.elements < Nat.pow 256 8)
    (hs : c.Spans (Record.writeAll rs) c') :
    repeated m rs.length c = c.checked (Record.allCounts rs) (rs, c') := by
  induction rs generalizing c with
  | nil =>
    obtain rfl := Cursor.spans_nil.1 hs
    rfl
  | cons r rs ih =>
    rw [Record.writeAll] at hlen hs
    rw [List.length_append] at hlen
    rw [Record.allCounts] at hcount ⊢
    obtain ⟨hcr, hcrs⟩ := List.forall_mem_append.1 hcount
    rw [List.forall_mem_map] at hcrs
    obtain ⟨d, hr, hrs⟩ := Cursor.spans_append.1 hs
    have hrest := ih (fun x hx => hwf x (List.mem_cons_of_mem _ hx)) (by omega) hcrs hrs
    exact bind_checked (hm _ _ _ (hwf r List.mem_cons_self) (by omega) hcr hr) hr
      (bind_pure_checked (r :: ·) hrest)

lemma vector_checks (hent : ∀ k h, Checks set k (entity k h)) {k : EntityKind}
    {hb : (FieldEncoding.vector k).Below n} {rs : List Record}
    (hwf : ∀ r ∈ rs, r.WellFormed set k)
    (hlen : (FieldValue.write (.vector k) (.records rs)).length < Nat.pow 256 8)
    (hcount : ∀ p ∈ FieldValue.counts (.vector k) (.records rs), p.elements < Nat.pow 256 8)
    (hs : c.Spans (FieldValue.write (.vector k) (.records rs)) c') :
    field entity (.vector k) hb c =
      c.checked (FieldValue.counts (.vector k) (.records rs)) (.records rs, c') := by
  rw [FieldValue.write] at hlen hs
  rw [List.length_append] at hlen
  rw [FieldValue.counts] at hcount ⊢
  obtain ⟨hhere, hthere⟩ := List.forall_mem_cons.1 hcount
  rw [List.forall_mem_map] at hthere
  obtain ⟨d, hd, hrs⟩ := Cursor.spans_append.1 hs
  have hread : compactSize c = .ok (rs.length, d) := compactSize_eq_ok.2 ⟨hhere, hd⟩
  -- the count is held against the bytes behind it before any record is read
  rcases Nat.lt_or_ge d.remaining rs.length with hfew | henough
  · rw [vector_of_few hread hfew, Cursor.checked_of_some (hd.refusal?_count_of_lt hfew)]
  · have hrest := repeated_checks (hent k (hb k rfl)) hwf (by omega) hthere hrs
    have hpass := hd.refusal?_count henough
    refine bind_checked (l := [_]) (hread.trans (Cursor.checked_of_none hpass).symm) hd ?_
    change (if d.remaining < rs.length then _ else _ : Read FieldValue) d = _
    rw [if_neg (by omega)]
    exact bind_pure_checked FieldValue.records hrest

lemma field_checks (hent : ∀ k h, Checks set k (entity k h)) {e : FieldEncoding}
    {hb : e.Below n} (he : e.Sized) {v : FieldValue} (hv : v.Matches set e)
    (hlen : (v.write e).length < Nat.pow 256 8)
    (hcount : ∀ p ∈ v.counts e, p.elements < Nat.pow 256 8) (hs : c.Spans (v.write e) c') :
    field entity e hb c = c.checked (v.counts e) (v, c') := by
  by_cases hleaf : e.child? = none
  · rw [hv.counts_leaf hleaf]
    exact field_recovers_leaf he hleaf hv hlen hs
  cases hv with
  | nested wf =>
    rw [FieldValue.counts] at hcount ⊢
    rw [FieldValue.write] at hlen hs
    exact bind_pure_checked FieldValue.record (hent _ _ _ _ _ wf hlen hcount hs)
  | vector wf => exact vector_checks hent wf hlen hcount hs
  | _ => exact absurd rfl hleaf

lemma slots_checks (hent : ∀ k h, Checks set k (entity k h))
    {earlier : List (FieldDescriptor × Option FieldValue)} {fs : List FieldDescriptor}
    {hb : ∀ f ∈ fs, f.encoding.Below n} (hf : ∀ f ∈ fs, f.Sound)
    {vs : List (Option FieldValue)} (hset : Record.Settled set earlier fs vs)
    (hlen : (Record.writeSlots fs vs).length < Nat.pow 256 8)
    (hcount : ∀ p ∈ Record.slotCounts fs vs, p.elements < Nat.pow 256 8)
    (hs : c.Spans (Record.writeSlots fs vs) c') :
    slots entity earlier fs hb c = c.checked (Record.slotCounts fs vs) (vs, c') := by
  induction fs generalizing earlier c vs with
  | nil =>
    cases hset
    rw [Record.writeSlots_nil] at hs
    obtain rfl := Cursor.spans_nil.1 hs
    rw [slots, Record.slotCounts]
    · rfl
    · intro f fs v vs hnil
      cases hnil
  | cons f fs ih =>
    have hfs : ∀ g ∈ fs, g.Sound := fun g hg => hf g (List.mem_cons_of_mem _ hg)
    cases hset with
    | @filled _ _ v _ vs holds fits rest =>
      rw [Record.writeSlots, Record.writeSlot] at hlen hs
      rw [List.length_append] at hlen
      rw [Record.slotCounts, Record.countsOf, Record.writeSlot] at hcount ⊢
      obtain ⟨hcv, hcvs⟩ := List.forall_mem_append.1 hcount
      rw [List.forall_mem_map] at hcvs
      obtain ⟨d, hv, hvs⟩ := Cursor.spans_append.1 hs
      rw [slots, if_pos holds]
      refine bind_checked (bind_pure_checked some ?_) hv (bind_pure_checked (some v :: ·) ?_)
      · exact field_checks hent (hf f List.mem_cons_self).sized fits (by omega) hcv hv
      · exact ih hfs rest (by omega) hcvs hvs
    | @absent _ _ _ vs fails rest =>
      rw [Record.writeSlots, Record.writeSlot, List.nil_append] at hlen hs
      rw [Record.slotCounts, Record.countsOf, Record.writeSlot] at hcount ⊢
      rw [slots, if_neg (by simp [fails])]
      refine bind_checked (l := []) (b := []) rfl (Cursor.spans_nil.2 rfl)
        (bind_pure_checked (none :: ·) ?_)
      exact ih hfs rest hlen (by simpa [Count.shift] using hcount) hs

lemma recordBelow_checks (n : Nat) (k : EntityKind) (h : k.rank < n) :
    Checks set k (recordBelow set n k h) := by
  induction n generalizing k with
  | zero => exact absurd h (Nat.not_lt_zero _)
  | succ n ih =>
    intro c r c' hr hlen hcount hs
    cases hr with
    | @mk _ vs settled =>
      rw [Record.serialize] at hlen hs
      rw [Record.counts] at hcount ⊢
      exact bind_pure_checked (Record.mk set k)
        (slots_checks ih (set.sound k) settled hlen hcount hs)

theorem record_checks (k : EntityKind) : Checks set k (record set k) :=
  recordBelow_checks _ k _

/-! ### The bound on what is read -/

/-- The counts of what is read are not above the number of bytes behind them. -/
def Bounded (m : Read Record) : Prop :=
  ∀ c r c', m c = .ok (r, c') → c.refusal? r.counts = none

lemma repeated_bounded {k : EntityKind} {m : Read Record} (hm : Bounded m)
    (hf : Faithful set k m) {rs : List Record} (h : repeated m n c = .ok (rs, c')) :
    c.refusal? (Record.allCounts rs) = none := by
  induction n generalizing c rs with
  | zero =>
    obtain ⟨rfl, -⟩ := pure_eq_ok.1 h
    rfl
  | succ n ih =>
    obtain ⟨r, d, hr, h⟩ := bind_eq_ok.1 h
    obtain ⟨rs, e, hrs, h⟩ := bind_eq_ok.1 h
    obtain ⟨rfl, rfl⟩ := pure_eq_ok.1 h
    have hs := (hf _ _ _ hr).2
    rw [Record.allCounts, Cursor.refusal?_append, hm _ _ _ hr, hs.refusal?_shift, ih hrs]
    rfl

lemma field_bounded (hent : ∀ k h, Faithful set k (entity k h))
    (hbound : ∀ k h, Bounded (entity k h)) {e : FieldEncoding} {hb : e.Below n} (he : e.Sized)
    {v : FieldValue} (h : field entity e hb c = .ok (v, c')) : c.refusal? (v.counts e) = none := by
  by_cases hleaf : e.child? = none
  · rw [(field_faithful hent he h).1.counts_leaf hleaf, Cursor.refusal?_nil]
  cases e with
  | nested k =>
    obtain ⟨r, d, hr, h⟩ := bind_eq_ok.1 h
    obtain ⟨rfl, rfl⟩ := pure_eq_ok.1 h
    rw [FieldValue.counts]
    exact hbound _ _ _ _ _ hr
  | vector k =>
    obtain ⟨count, d, rs, hc, hle, hr, rfl⟩ := vector_eq_ok.1 h
    obtain ⟨rfl, -, -⟩ := repeated_faithful (hent _ _) hr
    obtain ⟨-, hd⟩ := compactSize_eq_ok.1 hc
    rw [FieldValue.counts, ← List.singleton_append, Cursor.refusal?_append,
      hd.refusal?_count hle, hd.refusal?_shift, repeated_bounded (hbound _ _) (hent _ _) hr]
    rfl
  | _ => exact absurd rfl hleaf

lemma slots_bounded (hent : ∀ k h, Faithful set k (entity k h))
    (hbound : ∀ k h, Bounded (entity k h))
    {earlier : List (FieldDescriptor × Option FieldValue)} {fs : List FieldDescriptor}
    {hb : ∀ f ∈ fs, f.encoding.Below n} (hf : ∀ f ∈ fs, f.Sound) {vs : List (Option FieldValue)}
    (h : slots entity earlier fs hb c = .ok (vs, c')) :
    c.refusal? (Record.slotCounts fs vs) = none := by
  induction fs generalizing earlier c vs with
  | nil =>
    rw [slots] at h
    obtain ⟨rfl, -⟩ := pure_eq_ok.1 h
    simp [Record.slotCounts]
  | cons f fs ih =>
    have hfs : ∀ g ∈ fs, g.Sound := fun g hg => hf g (List.mem_cons_of_mem _ hg)
    cases hp : f.presence.holds earlier with
    | true =>
      obtain ⟨v, d, rest, hv, hrest, rfl⟩ := (slots_filled hp).1 h
      obtain ⟨-, hs⟩ := field_faithful hent (hf f List.mem_cons_self).sized hv
      have hhere := field_bounded hent hbound (hf f List.mem_cons_self).sized hv
      rw [Record.slotCounts, Record.countsOf, Record.writeSlot, Cursor.refusal?_append, hhere,
        hs.refusal?_shift, ih hfs hrest]
      rfl
    | false =>
      obtain ⟨rest, hrest, rfl⟩ := (slots_absent hp).1 h
      simpa [Record.slotCounts, Record.countsOf, Record.writeSlot, Count.shift] using ih hfs hrest

lemma recordBelow_bounded (n : Nat) (k : EntityKind) (h : k.rank < n) :
    Bounded (recordBelow set n k h) := by
  induction n generalizing k with
  | zero => exact absurd h (Nat.not_lt_zero _)
  | succ n ih =>
    intro c r c' hr
    obtain ⟨vs, d, hvs, hr⟩ := bind_eq_ok.1 hr
    obtain ⟨rfl, rfl⟩ := pure_eq_ok.1 hr
    rw [Record.counts]
    exact slots_bounded (fun k h => recordBelow_faithful n k h) ih (set.sound k) hvs

theorem record_bounded (k : EntityKind) : Bounded (record set k) :=
  recordBelow_bounded _ k _

end Read

/-! ### Writing and reading back -/

namespace Record

variable {r : Record} {b : Bytes}

/-- The lengths and counts in the bytes of a record are numbers of eight bytes, as those of
anything in memory are. -/
structure Countable (r : Record) : Prop where
  bytes : r.serialize.length < Nat.pow 256 8
  counts : ∀ p ∈ r.counts, p.elements < Nat.pow 256 8

lemma spans_serialize (r : Record) :
    (Cursor.ofBytes r.serialize).Spans r.serialize ⟨r.serialize.length, []⟩ :=
  ⟨(List.append_nil _).symm, (Nat.zero_add _).symm⟩

lemma deserialize_checked (hr : r.WellFormed set k) (hc : r.Countable) :
    deserialize set k r.serialize =
      match (Cursor.ofBytes r.serialize).refusal? r.counts with
      | none => .ok r
      | some e => .error e := by
  have hread := Read.record_checks k _ r _ hr hc.bytes hc.counts (spans_serialize r)
  change (Read.record set k (Cursor.ofBytes r.serialize)).bind _ = _
  rw [hread, Cursor.checked]
  cases (Cursor.ofBytes r.serialize).refusal? r.counts <;> rfl

lemma counts_of_deserialize (h : deserialize set k b = .ok r) :
    ∀ p ∈ r.counts, p.Stands b ∧ p.offset + p.elements ≤ b.length := by
  obtain ⟨c, hc, -⟩ := deserialize_eq_ok.1 h
  have hwf := (Read.record_faithful k _ _ _ hc).1
  have hbound := Cursor.refusal?_eq_none.1 (Read.record_bounded k _ _ _ hc)
  intro p hp
  exact ⟨serialize_of_deserialize h ▸ counts_stand hwf p hp, hbound p hp⟩

/-- **The check on counts, and what the rules of the schemas give it.** Of each kind either all
records take room or none does, and none does where the layout has nothing but byte strings of
length zero and such entities; transactions and blocks always take room. The bytes of a record are
read back, or refused for the first count above the number of bytes behind it; none is refused
where the elements of all vectors take room. Whatever bytes are accepted, the counts in them stand
where the record has its vectors, and none is above the number of bytes behind it. -/
theorem counts_checked (set : SchemaSet) (k : EntityKind) :
    (∀ r : Record, r.WellFormed set k → (r.serialize ≠ [] ↔ set.occupies k = true)) ∧
    (set.occupies k = false ↔ ∀ f ∈ set.fields k, set.Blank f.encoding) ∧
    (set.occupies .transaction = true ∧ set.occupies .block = true) ∧
    (∀ r : Record, r.WellFormed set k → r.Countable →
      (deserialize set k r.serialize =
        match (Cursor.ofBytes r.serialize).refusal? r.counts with
        | none => .ok r
        | some e => .error e) ∧
      ((∀ child, set.HasVector child → set.occupies child = true) →
        (Cursor.ofBytes r.serialize).refusal? r.counts = none)) ∧
    ∀ b r, deserialize set k b = .ok r →
      ∀ p ∈ r.counts, p.Stands b ∧ p.offset + p.elements ≤ b.length := by
  refine ⟨fun r hr => ⟨fun hne => ?_, fun hocc => serialize_ne_nil hocc hr⟩,
    SchemaSet.occupies_eq_false_iff, ⟨set.occupies_transaction, set.occupies_block⟩,
    fun r hr hc => ⟨deserialize_checked hr hc, fun hroom => ?_⟩,
    fun b r h => counts_of_deserialize h⟩
  · by_contra hocc
    exact hne (serialize_eq_nil (eq_false_of_ne_true hocc) hr)
  · have hread := Read.record_recovers hroom k _ r _ hr hc.bytes (spans_serialize r)
    exact Read.record_bounded k _ _ _ hread

/-! ### Inputs without room -/

/-- A network with inputs that have no fields and that come last. -/
def emptyInputConfig : ProfileConfig where
  layout?
    | .txIn => some []
    | .transaction => some
        [{ name := FieldName.outputs, encoding := .vector .txOut },
         { name := FieldName.inputs, encoding := .vector .txIn }]
    | _ => none

def emptyInput : SchemaSet :=
  { Standard.bitcoin with
    txin := ⟨emptyInputConfig.fields .txIn, by decide⟩
    transaction := ⟨emptyInputConfig.fields .transaction, by decide⟩ }

lemma emptyInput_ofConfig :
    Profile.ofConfig emptyInputConfig = .ok ⟨"", emptyInput, OpcodeTable.timeLocked⟩ := by
  rfl

def emptySpending : Record :=
  mk emptyInput .transaction [some (.records []), some (.records [.new emptyInput .txIn])]

lemma emptySpending_reachable : Reachable emptyInput emptySpending :=
  (Reachable.new .transaction).push (show Schema.field? _ "inputs" = some _ from rfl) rfl
    (.new .txIn) (show push? _ "inputs" _ = some _ from rfl)

lemma emptySpending_wellFormed : emptySpending.WellFormed emptyInput .transaction :=
  emptySpending_reachable.wellFormed

lemma emptySpending_countable : emptySpending.Countable where
  bytes := by decide
  counts := by decide

theorem counts_checked_emptySpending :
    emptySpending.WellFormed emptyInput .transaction ∧ emptySpending.Countable ∧
    deserialize emptyInput .transaction emptySpending.serialize = .error (.truncated 2 1 0) ∧
    sent.WellFormed Standard.clams .transaction ∧ sent.Countable ∧
    (Cursor.ofBytes sent.serialize).refusal? sent.counts = none ∧
    deserialize Standard.clams .transaction spokenBytes = .ok spoken ∧
    ∀ p ∈ spoken.counts, p.Stands spokenBytes ∧ p.offset + p.elements ≤ spokenBytes.length := by
  obtain ⟨-, -, -, hempty, -⟩ := counts_checked emptyInput .transaction
  obtain ⟨-, -, -, hsent, hspoken⟩ := counts_checked Standard.clams .transaction
  have hwf : sent.WellFormed Standard.clams .transaction := sent_reachable.wellFormed
  have hcountable : sent.Countable := ⟨by decide, by decide⟩
  have hroomy : Standard.clams.Roomy := by decide
  have hoccupied : ∀ child, Standard.clams.HasVector child → Standard.clams.occupies child = true :=
    fun child hchild => SchemaSet.occupied_iff.1 (hroomy child hchild)
  have hread : deserialize Standard.clams .transaction spokenBytes = .ok spoken := by rfl
  exact ⟨emptySpending_wellFormed, emptySpending_countable,
    (hempty _ emptySpending_wellFormed emptySpending_countable).1, hwf, hcountable,
    (hsent _ hwf hcountable).2 hoccupied, hread, hspoken _ _ hread⟩

/-- **An accepted layout whose records take no byte**, though they are elements of a vector: the
bytes of a transaction with one such input are refused for the count of its inputs. -/
theorem emptySpending_refused : ∃ p, Profile.ofConfig emptyInputConfig = .ok p ∧
    p.schemas.HasVector .txIn ∧ (new p.schemas .txIn).serialize = [] ∧
    Reachable p.schemas emptySpending ∧ emptySpending.serialize = [0, 1] ∧
    deserialize p.schemas .transaction [0, 1] = .error (.truncated 2 1 0) :=
  ⟨_, emptyInput_ofConfig, by decide, by rfl, emptySpending_reachable, by rfl, by rfl⟩

end Record

end CoinScript
