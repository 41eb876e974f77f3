import CoinScript.Proofs.Record.Occupied
import CoinScript.Proofs.Wire.Exact

/-!
Reading a record and writing it are inverse to each other.

A read accepts nothing but what writing gives, and the record it returns is well formed.
In the other direction the bytes of a well-formed record are read back to that record,
whatever follows them, if the records in its vectors take up room: a vector is refused when
it announces more records than there are bytes left.
-/

namespace CoinScript

lemma Record.writeSlots_nil : Record.writeSlots [] [] = [] := by
  simp [Record.writeSlots]

namespace Read

variable {c c' : Cursor}

lemma get_eq_ok {a : Cursor} : (get : Read Cursor) c = .ok (a, c') ↔ a = c ∧ c' = c := by
  change Except.ok (c, c) = _ ↔ _
  simp [eq_comm]

lemma vector_eq_ok {n : Nat} {entity : (k : EntityKind) → k.rank < n → Read Record}
    {k : EntityKind} {h : (FieldEncoding.vector k).Below n} {v : FieldValue} :
    field entity (.vector k) h c = .ok (v, c') ↔
      ∃ count d rs, compactSize c = .ok (count, d) ∧ count ≤ d.remaining ∧
        repeated (entity k (h k rfl)) count d = .ok (rs, c') ∧ v = .records rs := by
  unfold field
  simp only [bind_eq_ok, get_eq_ok]
  constructor
  · rintro ⟨count, d, hc, e, e', ⟨rfl, rfl⟩, hv⟩
    split at hv
    · obtain ⟨_, _, h, -⟩ := bind_eq_ok.1 hv
      exact absurd h throw_ne_ok
    · obtain ⟨rs, e, hr, hv⟩ := bind_eq_ok.1 hv
      obtain ⟨rfl, rfl⟩ := pure_eq_ok.1 hv
      exact ⟨count, e', rs, hc, by omega, hr, rfl⟩
  · rintro ⟨count, d, rs, hc, hle, hr, rfl⟩
    refine ⟨count, d, hc, d, d, ⟨rfl, rfl⟩, ?_⟩
    rw [if_neg (by omega)]
    exact bind_eq_ok.2 ⟨rs, c', hr, rfl⟩

section

variable {n : Nat} {entity : (k : EntityKind) → k.rank < n → Read Record}
  {earlier : List (FieldDescriptor × Option FieldValue)} {f : FieldDescriptor}
  {fs : List FieldDescriptor} {hb : ∀ g ∈ f :: fs, g.encoding.Below n}
  {vs : List (Option FieldValue)}

lemma slots_filled (holds : f.presence.holds earlier = true) :
    slots entity earlier (f :: fs) hb c = .ok (vs, c') ↔
      ∃ v d rest, field entity f.encoding (hb f List.mem_cons_self) c = .ok (v, d) ∧
        slots entity (earlier ++ [(f, some v)]) fs (fun g hg => hb g (List.mem_cons_of_mem _ hg)) d
          = .ok (rest, c') ∧ vs = some v :: rest := by
  rw [slots, if_pos holds]
  constructor
  · intro h
    obtain ⟨_, d, hsome, h'⟩ := bind_eq_ok.1 h
    obtain ⟨v, hv, rfl⟩ := map_eq_ok.1 hsome
    obtain ⟨rest, e, hrest, hvs⟩ := bind_eq_ok.1 h'
    obtain ⟨rfl, rfl⟩ := pure_eq_ok.1 hvs
    exact ⟨v, d, rest, hv, hrest, rfl⟩
  · rintro ⟨v, d, rest, hv, hrest, rfl⟩
    exact bind_eq_ok.2 ⟨some v, d, map_eq_ok.2 ⟨v, hv, rfl⟩, bind_eq_ok.2 ⟨rest, c', hrest, rfl⟩⟩

lemma slots_absent (fails : f.presence.holds earlier = false) :
    slots entity earlier (f :: fs) hb c = .ok (vs, c') ↔
      ∃ rest, slots entity (earlier ++ [(f, none)]) fs
        (fun g hg => hb g (List.mem_cons_of_mem _ hg)) c = .ok (rest, c') ∧ vs = none :: rest := by
  rw [slots, if_neg (by simp [fails])]
  constructor
  · intro h
    obtain ⟨_, _, hnone, h'⟩ := bind_eq_ok.1 h
    obtain ⟨rfl, rfl⟩ := pure_eq_ok.1 hnone
    obtain ⟨rest, d, hrest, hvs⟩ := bind_eq_ok.1 h'
    obtain ⟨rfl, rfl⟩ := pure_eq_ok.1 hvs
    exact ⟨rest, hrest, rfl⟩
  · rintro ⟨rest, hrest, rfl⟩
    exact bind_eq_ok.2 ⟨none, c, rfl, bind_eq_ok.2 ⟨rest, c', hrest, rfl⟩⟩

end

/-! ### Soundness -/

variable {set : SchemaSet}

/-- What is read is well formed, and its bytes are those that were passed over. -/
def Faithful (set : SchemaSet) (k : EntityKind) (m : Read Record) : Prop :=
  ∀ c r c', m c = .ok (r, c') → r.WellFormed set k ∧ c.Spans r.serialize c'

lemma repeated_faithful {k : EntityKind} {m : Read Record} (hm : Faithful set k m) {n : Nat}
    {rs : List Record} (h : repeated m n c = .ok (rs, c')) :
    rs.length = n ∧ (∀ r ∈ rs, r.WellFormed set k) ∧ c.Spans (Record.writeAll rs) c' := by
  induction n generalizing c rs with
  | zero =>
    obtain ⟨rfl, rfl⟩ := pure_eq_ok.1 h
    simp [Record.writeAll]
  | succ n ih =>
    obtain ⟨r, d, hr, h⟩ := bind_eq_ok.1 h
    obtain ⟨rs, e, hrs, h⟩ := bind_eq_ok.1 h
    obtain ⟨rfl, rfl⟩ := pure_eq_ok.1 h
    obtain ⟨hwf, hs⟩ := hm _ _ _ hr
    obtain ⟨rfl, hwfs, hs'⟩ := ih hrs
    refine ⟨rfl, by simpa using ⟨hwf, hwfs⟩, ?_⟩
    rw [Record.writeAll]
    exact Cursor.spans_append.2 ⟨d, hs, hs'⟩

variable {n : Nat} {entity : (k : EntityKind) → k.rank < n → Read Record}

lemma field_faithful (hent : ∀ k h, Faithful set k (entity k h)) {e : FieldEncoding}
    {hb : e.Below n} (he : e.Sized) {v : FieldValue} (h : field entity e hb c = .ok (v, c')) :
    v.Matches set e ∧ c.Spans (v.write e) c' := by
  cases e with
  | int w signed =>
    obtain ⟨h0, h8⟩ := he w signed rfl
    cases signed with
    | true =>
      obtain ⟨x, d, hx, h⟩ := bind_eq_ok.1 h
      obtain ⟨rfl, rfl⟩ := pure_eq_ok.1 h
      obtain ⟨hfit, hs⟩ := (int_eq_ok h0 h8).1 hx
      exact ⟨.int hfit, hs⟩
    | false =>
      obtain ⟨x, d, hx, h⟩ := bind_eq_ok.1 h
      obtain ⟨rfl, rfl⟩ := pure_eq_ok.1 h
      obtain ⟨hfit, hs⟩ := uint_eq_ok.1 hx
      exact ⟨.uint ((intFits_unsigned h8).2 hfit), hs⟩
  | fixedBytes w =>
    obtain ⟨b, d, hx, h⟩ := bind_eq_ok.1 h
    obtain ⟨rfl, rfl⟩ := pure_eq_ok.1 h
    obtain ⟨rfl, hs⟩ := bytes_eq_ok.1 hx
    exact ⟨.fixedBytes b, hs⟩
  | varBytes =>
    obtain ⟨b, d, hx, h⟩ := bind_eq_ok.1 h
    obtain ⟨rfl, rfl⟩ := pure_eq_ok.1 h
    exact ⟨.varBytes b, (varBytes_eq_ok.1 hx).2⟩
  | script =>
    obtain ⟨b, d, hx, h⟩ := bind_eq_ok.1 h
    obtain ⟨rfl, rfl⟩ := pure_eq_ok.1 h
    exact ⟨.script ⟨b⟩, (varBytes_eq_ok.1 hx).2⟩
  | hash =>
    obtain ⟨x, d, hx, h⟩ := bind_eq_ok.1 h
    obtain ⟨rfl, rfl⟩ := pure_eq_ok.1 h
    exact ⟨.hash x, hash_eq_ok.1 hx⟩
  | nested k =>
    obtain ⟨r, d, hx, h⟩ := bind_eq_ok.1 h
    obtain ⟨rfl, rfl⟩ := pure_eq_ok.1 h
    obtain ⟨hwf, hs⟩ := hent _ _ _ _ _ hx
    exact ⟨.nested hwf, hs⟩
  | vector k =>
    obtain ⟨count, d, rs, hc, -, hr, rfl⟩ := vector_eq_ok.1 h
    obtain ⟨rfl, hwf, hs⟩ := repeated_faithful (hent _ _) hr
    exact ⟨.vector hwf, Cursor.spans_append.2 ⟨d, (compactSize_eq_ok.1 hc).2, hs⟩⟩

lemma slots_faithful (hent : ∀ k h, Faithful set k (entity k h))
    {earlier : List (FieldDescriptor × Option FieldValue)} {fs : List FieldDescriptor}
    {hb : ∀ f ∈ fs, f.encoding.Below n} (hf : ∀ f ∈ fs, f.Sound) {vs : List (Option FieldValue)}
    (h : slots entity earlier fs hb c = .ok (vs, c')) :
    Record.Settled set earlier fs vs ∧ c.Spans (Record.writeSlots fs vs) c' := by
  induction fs generalizing earlier c vs with
  | nil =>
    rw [slots] at h
    obtain ⟨rfl, rfl⟩ := pure_eq_ok.1 h
    exact ⟨.nil, Cursor.spans_nil.2 rfl⟩
  | cons f fs ih =>
    have hfs : ∀ g ∈ fs, g.Sound := fun g hg => hf g (List.mem_cons_of_mem _ hg)
    rw [Record.writeSlots.eq_def]
    cases hp : f.presence.holds earlier with
    | true =>
      obtain ⟨v, d, rest, hv, hrest, rfl⟩ := (slots_filled hp).1 h
      obtain ⟨hfit, hs⟩ := field_faithful hent (hf f List.mem_cons_self).sized hv
      obtain ⟨hset, hs'⟩ := ih hfs hrest
      exact ⟨.filled hp hfit hset, Cursor.spans_append.2 ⟨d, hs, hs'⟩⟩
    | false =>
      obtain ⟨rest, hrest, rfl⟩ := (slots_absent hp).1 h
      obtain ⟨hset, hs⟩ := ih hfs hrest
      exact ⟨.absent hp hset, hs⟩

lemma recordBelow_faithful (n : Nat) (k : EntityKind) (h : k.rank < n) :
    Faithful set k (recordBelow set n k h) := by
  induction n generalizing k with
  | zero => exact absurd h (Nat.not_lt_zero _)
  | succ n ih =>
    intro c r c' hr
    obtain ⟨vs, d, hvs, hr⟩ := bind_eq_ok.1 hr
    obtain ⟨rfl, rfl⟩ := pure_eq_ok.1 hr
    obtain ⟨hset, hs⟩ := slots_faithful ih (set.sound k) hvs
    exact ⟨.mk hset, by rwa [Record.serialize]⟩

theorem record_faithful (k : EntityKind) : Faithful set k (record set k) :=
  recordBelow_faithful _ k _

/-! ### Completeness -/

/-- The bytes of a well-formed record are read back to it. Their number is a number of eight
bytes, so that every count in them is one. -/
def Recovers (set : SchemaSet) (k : EntityKind) (m : Read Record) : Prop :=
  ∀ c r c', r.WellFormed set k → r.serialize.length < Nat.pow 256 8 →
    c.Spans r.serialize c' → m c = .ok (r, c')

lemma repeated_recovers {k : EntityKind} {m : Read Record} (hm : Recovers set k m)
    {rs : List Record} (hwf : ∀ r ∈ rs, r.WellFormed set k)
    (hlen : (Record.writeAll rs).length < Nat.pow 256 8)
    (hs : c.Spans (Record.writeAll rs) c') : repeated m rs.length c = .ok (rs, c') := by
  induction rs generalizing c with
  | nil =>
    obtain rfl := Cursor.spans_nil.1 hs
    rfl
  | cons r rs ih =>
    rw [Record.writeAll] at hlen hs
    rw [List.length_append] at hlen
    obtain ⟨d, hr, hrs⟩ := Cursor.spans_append.1 hs
    refine bind_eq_ok.2 ⟨r, d, hm _ _ _ (hwf r List.mem_cons_self) (by omega) hr, ?_⟩
    exact bind_eq_ok.2 ⟨rs, c', ih (fun x hx => hwf x (List.mem_cons_of_mem _ hx)) (by omega) hrs,
      rfl⟩

lemma length_le_writeAll {rs : List Record} (h : ∀ r ∈ rs, r.serialize ≠ []) :
    rs.length ≤ (Record.writeAll rs).length := by
  induction rs with
  | nil => exact Nat.le_refl _
  | cons r rs ih =>
    have hr := List.length_pos_iff.2 (h r List.mem_cons_self)
    have := ih fun x hx => h x (List.mem_cons_of_mem _ hx)
    rw [Record.writeAll, List.length_append, List.length_cons]
    omega

lemma field_recovers_leaf {e : FieldEncoding} {hb : e.Below n} (he : e.Sized)
    (hleaf : e.child? = none) {v : FieldValue} (hv : v.Matches set e)
    (hlen : (v.write e).length < Nat.pow 256 8) (hs : c.Spans (v.write e) c') :
    field entity e hb c = .ok (v, c') := by
  cases hv with
  | @int w v fits =>
    obtain ⟨h0, h8⟩ := he w true rfl
    exact bind_eq_ok.2 ⟨v, c', (int_eq_ok h0 h8).2 ⟨fits, hs⟩, rfl⟩
  | @uint w n fits =>
    have hn := (intFits_unsigned (he w false rfl).2).1 fits
    exact bind_eq_ok.2 ⟨n, c', uint_eq_ok.2 ⟨hn, hs⟩, rfl⟩
  | fixedBytes b => exact bind_eq_ok.2 ⟨b, c', bytes_eq_ok.2 ⟨rfl, hs⟩, rfl⟩
  | varBytes b =>
    -- the data is part of what is written, so its length fits the count before it
    rw [FieldValue.write, CompactSize.encodeBytes, List.length_append] at hlen
    exact bind_eq_ok.2 ⟨b, c', varBytes_eq_ok.2 ⟨by omega, hs⟩, rfl⟩
  | script s =>
    rw [FieldValue.write, CompactSize.encodeBytes, List.length_append] at hlen
    exact bind_eq_ok.2 ⟨s.bytes, c', varBytes_eq_ok.2 ⟨by omega, hs⟩, rfl⟩
  | hash h => exact bind_eq_ok.2 ⟨h, c', hash_eq_ok.2 hs, rfl⟩
  | nested wf => cases hleaf
  | vector wf => cases hleaf

lemma field_recovers (hent : ∀ k h, Recovers set k (entity k h)) {e : FieldEncoding}
    {hb : e.Below n} (he : e.Sized) (hroom : ∀ k, e = .vector k → set.occupies k = true)
    {v : FieldValue} (hv : v.Matches set e) (hlen : (v.write e).length < Nat.pow 256 8)
    (hs : c.Spans (v.write e) c') : field entity e hb c = .ok (v, c') := by
  by_cases hleaf : e.child? = none
  · exact field_recovers_leaf he hleaf hv hlen hs
  cases hv with
  | @nested k r wf => exact bind_eq_ok.2 ⟨r, c', hent _ _ _ _ _ wf hlen hs, rfl⟩
  | @vector k rs wf =>
    rw [FieldValue.write] at hlen hs
    rw [List.length_append] at hlen
    obtain ⟨d, hcount, hrs⟩ := Cursor.spans_append.1 hs
    have hle := length_le_writeAll fun r hr => Record.serialize_ne_nil (hroom k rfl) (wf r hr)
    exact vector_eq_ok.2 ⟨rs.length, d, rs, compactSize_eq_ok.2 ⟨by omega, hcount⟩,
      Nat.le_trans hle hrs.length_le, repeated_recovers (hent _ _) wf (by omega) hrs, rfl⟩
  | _ => exact absurd rfl hleaf

lemma slots_recovers (hent : ∀ k h, Recovers set k (entity k h))
    {earlier : List (FieldDescriptor × Option FieldValue)} {fs : List FieldDescriptor}
    {hb : ∀ f ∈ fs, f.encoding.Below n} (hf : ∀ f ∈ fs, f.Sound)
    (hroom : ∀ f ∈ fs, ∀ k, f.encoding = .vector k → set.occupies k = true)
    {vs : List (Option FieldValue)} (hset : Record.Settled set earlier fs vs)
    (hlen : (Record.writeSlots fs vs).length < Nat.pow 256 8)
    (hs : c.Spans (Record.writeSlots fs vs) c') : slots entity earlier fs hb c = .ok (vs, c') := by
  induction fs generalizing earlier c vs with
  | nil =>
    cases hset
    rw [Record.writeSlots_nil] at hs
    obtain rfl := Cursor.spans_nil.1 hs
    rw [slots]
    rfl
  | cons f fs ih =>
    have hfs : ∀ g ∈ fs, g.Sound := fun g hg => hf g (List.mem_cons_of_mem _ hg)
    have hrooms := fun g hg => hroom g (List.mem_cons_of_mem _ hg)
    cases hset with
    | @filled _ _ v _ vs holds fits rest =>
      rw [Record.writeSlots, Record.writeSlot] at hlen hs
      rw [List.length_append] at hlen
      obtain ⟨d, hv, hvs⟩ := Cursor.spans_append.1 hs
      exact (slots_filled holds).2 ⟨v, d, vs,
        field_recovers hent (hf f List.mem_cons_self).sized (hroom f List.mem_cons_self) fits
          (by omega) hv,
        ih hfs hrooms rest (by omega) hvs, rfl⟩
    | @absent _ _ _ vs fails rest =>
      exact (slots_absent fails).2 ⟨vs, ih hfs hrooms rest hlen hs, rfl⟩

lemma recordBelow_recovers (hroom : ∀ k, set.HasVector k → set.occupies k = true) (n : Nat)
    (k : EntityKind) (h : k.rank < n) : Recovers set k (recordBelow set n k h) := by
  induction n generalizing k with
  | zero => exact absurd h (Nat.not_lt_zero _)
  | succ n ih =>
    intro c r c' hr hlen hs
    cases hr with
    | @mk _ vs settled =>
      rw [Record.serialize] at hlen hs
      exact bind_eq_ok.2 ⟨vs, c', slots_recovers ih (set.sound k)
        (fun f hf k' he => hroom k' ⟨k, f, hf, he⟩) settled hlen hs, rfl⟩

theorem record_recovers (hroom : ∀ k, set.HasVector k → set.occupies k = true)
    (k : EntityKind) : Recovers set k (record set k) :=
  recordBelow_recovers hroom _ k _

end Read

theorem Record.deserialize_eq_ok {set : SchemaSet} {k : EntityKind} {b : Bytes} {r : Record} :
    Record.deserialize set k b = .ok r ↔
      ∃ c, Read.record set k (Cursor.ofBytes b) = .ok (r, c) ∧ c.rest = [] := by
  change (Read.record set k (Cursor.ofBytes b)).bind
    (fun p => if p.2.isEmpty then Except.ok p.1 else .error _) = .ok r ↔ _
  cases Read.record set k (Cursor.ofBytes b) with
  | error e => simp [Except.bind]
  | ok p =>
    obtain ⟨r', c⟩ := p
    cases hc : c.rest with
    | nil => simp [Except.bind, Cursor.isEmpty, hc]
    | cons x rest => simp [Except.bind, Cursor.isEmpty, hc]

end CoinScript
