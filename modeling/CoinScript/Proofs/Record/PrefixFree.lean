import CoinScript.Proofs.Record.RoundTrip
import CoinScript.Proofs.Wire.Steady

/-!
The bytes of records form a prefix-free code, and what is wrong with other bytes is said precisely.

Reading a record is steady, also where the count of a vector is held against the bytes that are
left: a count that all bytes together allow may be too much for the first of them, but then these
are too few. So of the bytes of a record no part at the front is accepted, nor are they if
anything follows.
-/

namespace CoinScript

namespace Read

variable {c c' : Cursor} {n : Nat} {entity : (k : EntityKind) → k.rank < n → Read Record}

lemma steady_repeated {m : Read Record} (hm : Steady m) (count : Nat) :
    Steady (repeated m count) := by
  induction count with
  | zero => exact steady_pure []
  | succ count ih => exact hm.bind fun r => ih.bind fun rs => steady_pure (r :: rs)

/-! ### Vectors -/

section

variable {k : EntityKind} {h : (FieldEncoding.vector k).Below n} {count : Nat} {e : Fault}

lemma vector_of_few (hc : compactSize c = .ok (count, c')) (hlt : c'.remaining < count) :
    field entity (.vector k) h c = .error (.truncated c'.offset count c'.remaining) := by
  refine bind_eq_error.2 (.inr ⟨count, c', hc, ?_⟩)
  refine bind_eq_error.2 (.inr ⟨c', c', get_eq_ok.2 ⟨rfl, rfl⟩, ?_⟩)
  rw [if_pos hlt]
  rfl

lemma vector_of_fault (hc : compactSize c = .ok (count, c')) (hle : count ≤ c'.remaining)
    (he : repeated (entity k (h k rfl)) count c' = .error e) :
    field entity (.vector k) h c = .error e := by
  refine bind_eq_error.2 (.inr ⟨count, c', hc, ?_⟩)
  refine bind_eq_error.2 (.inr ⟨c', c', get_eq_ok.2 ⟨rfl, rfl⟩, ?_⟩)
  rw [if_neg (Nat.not_lt.2 hle)]
  exact bind_eq_error.2 (.inl he)

lemma steady_vector (hent : ∀ k h, Steady (entity k h)) :
    Steady (field entity (.vector k) h) where
  stop hv := by
    obtain ⟨count, d, rs, hc, -, hr, -⟩ := vector_eq_ok.1 hv
    rw [(steady_repeated (hent _ _) count).stop hr, steady_compactSize.stop hc]
  extend t hv := by
    obtain ⟨count, d, rs, hc, hle, hr, rfl⟩ := vector_eq_ok.1 hv
    have hle' : count ≤ (d.extend t).remaining := by
      rw [Cursor.remaining_extend]
      omega
    exact vector_eq_ok.2 ⟨count, d.extend t, rs, steady_compactSize.extend t hc, hle',
      (steady_repeated (hent _ _) count).extend t hr, rfl⟩
  cut {c t v d} hv := by
    obtain ⟨count, d', rs, hc, -, hr, rfl⟩ := vector_eq_ok.1 hv
    rcases steady_compactSize.cut hc with ⟨c₁, rfl, hc'⟩ | ⟨e, he, hshort⟩
    · have hstop := steady_compactSize.stop hc'
      rcases Nat.lt_or_ge c₁.remaining count with hlt | hle
      · -- what is cut off may be missed by the count already
        exact .inr ⟨_, vector_of_few hc' hlt, .mk hstop hlt⟩
      · rcases (steady_repeated (hent _ _) count).cut hr with ⟨c₂, rfl, hr'⟩ | ⟨e, he, hshort⟩
        · exact .inl ⟨c₂, rfl, vector_eq_ok.2 ⟨count, c₁, rs, hc', hle, hr', rfl⟩⟩
        · exact .inr ⟨e, vector_of_fault hc' hle he, hshort.of_stop_eq hstop⟩
    · exact .inr ⟨e, bind_eq_error.2 (.inl he), hshort⟩

end

/-! ### Records -/

lemma steady_field (hent : ∀ k h, Steady (entity k h)) (e : FieldEncoding) (hb : e.Below n) :
    Steady (field entity e hb) := by
  cases e with
  | int width signed =>
    cases signed with
    | true => exact (steady_int width).bind fun _ => steady_pure _
    | false => exact (steady_uint width).bind fun _ => steady_pure _
  | fixedBytes width => exact (steady_bytes width).bind fun _ => steady_pure _
  | varBytes => exact steady_varBytes.bind fun _ => steady_pure _
  | script => exact steady_varBytes.bind fun _ => steady_pure _
  | hash => exact steady_hash.bind fun _ => steady_pure _
  | nested k => exact (hent k _).bind fun _ => steady_pure _
  | vector k => exact steady_vector hent

lemma steady_slots (hent : ∀ k h, Steady (entity k h)) (fs : List FieldDescriptor)
    (earlier : List (FieldDescriptor × Option FieldValue))
    (hb : ∀ f ∈ fs, f.encoding.Below n) : Steady (slots entity earlier fs hb) := by
  induction fs generalizing earlier with
  | nil =>
    unfold slots
    exact steady_pure []
  | cons f fs ih =>
    have hrest (slot : Option FieldValue) := (ih (earlier ++ [(f, slot)])
      fun g hg => hb g (List.mem_cons_of_mem _ hg)).bind fun rest => steady_pure (slot :: rest)
    rw [slots]
    split
    · exact (steady_field hent _ _).map.bind hrest
    · exact (steady_pure none).bind hrest

lemma steady_recordBelow (set : SchemaSet) (n : Nat) (k : EntityKind) (h : k.rank < n) :
    Steady (recordBelow set n k h) := by
  induction n generalizing k with
  | zero => exact absurd h (Nat.not_lt_zero _)
  | succ n ih => exact (steady_slots ih _ _ _).bind fun values => steady_pure _

/-- **Records are read steadily**, whatever their layout. -/
theorem steady_record (set : SchemaSet) (k : EntityKind) : Steady (record set k) :=
  steady_recordBelow set _ k _

end Read

namespace Record

variable {set : SchemaSet} {k : EntityKind} {b p t : Bytes} {r : Record}

lemma deserialize_of_fault {e : Fault}
    (h : Read.record set k (Cursor.ofBytes b) = .error e) : deserialize set k b = .error e := by
  change (Read.record set k (Cursor.ofBytes b)).bind _ = _
  rw [h]
  rfl

lemma deserialize_of_rest {c : Cursor}
    (h : Read.record set k (Cursor.ofBytes b) = .ok (r, c)) (hc : c.rest ≠ []) :
    deserialize set k b = .error (.encoding (.trailing c.remaining k)) := by
  have hempty : c.isEmpty = false := by simpa [Cursor.isEmpty] using hc
  change (Read.record set k (Cursor.ofBytes b)).bind
    (fun p => if p.2.isEmpty then Except.ok p.1 else .error _) = _
  rw [h]
  simp [Except.bind, hempty]

/-- **The bytes of records form a prefix-free code.** If some bytes are accepted, a proper part at
their front is refused for want of input, at a place from which more bytes are needed than this
part has left; and with further bytes behind them they are refused for these. -/
theorem deserialize_prefix_free (h : deserialize set k b = .ok r) :
    (∀ p, p <+: b → p ≠ b → ∃ offset needed available,
      deserialize set k p = .error (.truncated offset needed available) ∧
        offset + available = p.length ∧ available < needed) ∧
    ∀ t, t ≠ [] → deserialize set k (b ++ t) = .error (.encoding (.trailing t.length k)) := by
  obtain ⟨c, hc, hrest⟩ := deserialize_eq_ok.1 h
  have steady := Read.steady_record set k
  constructor
  · rintro p ⟨t, rfl⟩ hne
    have ht : t ≠ [] := by simpa using hne
    rcases steady.cut (c := Cursor.ofBytes p) hc with ⟨c', rfl, -⟩ | ⟨e, he, hshort⟩
    · simp [Cursor.extend, ht] at hrest
    · cases hshort with
      | mk stop_eq lt =>
        refine ⟨_, _, _, deserialize_of_fault he, ?_, lt⟩
        rw [stop_eq, Cursor.stop, Cursor.ofBytes, Cursor.remaining, Nat.zero_add]
  · intro t ht
    have hlonger : Read.record set k (Cursor.ofBytes (b ++ t)) = .ok (r, c.extend t) :=
      steady.extend t hc
    have hrest' : (c.extend t).rest = t := by rw [Cursor.extend, hrest, List.nil_append]
    rw [deserialize_of_rest hlonger (by rwa [hrest']), Cursor.remaining, hrest']

theorem deserialize_prefix_free_spoken :
    deserialize Standard.clams .transaction spokenBytes = .ok spoken ∧
      (∃ offset needed available, deserialize Standard.clams .transaction (spokenBytes.take 52) =
        .error (.truncated offset needed available) ∧ offset + available = 52 ∧
          available < needed) ∧
      deserialize Standard.clams .transaction (spokenBytes ++ [7]) =
        .error (.encoding (.trailing 1 .transaction)) := by
  have h : deserialize Standard.clams .transaction spokenBytes = .ok spoken := by rfl
  obtain ⟨cut, longer⟩ := deserialize_prefix_free h
  exact ⟨h, cut (spokenBytes.take 52) (List.take_prefix _ _) (by decide), longer [7] (by decide)⟩

end Record

end CoinScript
