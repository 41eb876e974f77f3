import CoinScript.Proofs.Record.Names
import CoinScript.Proofs.Record.Nesting

/-!
What new records hold.

A schema is accepted only if each default is a value of its field, so a new record holds the
defaults as they are given: no integer is cut off, and no bytes are replaced. Where none is given,
integers and bytes of a fixed width are zero, other bytes and vectors are empty, and in place of a
nested record there is a new one.
-/

namespace CoinScript

variable {set : SchemaSet} {k : EntityKind}

/-- What a new field of an encoding holds where a default is given, or none. Integers are kept in
eight bytes, whatever the width of the field, and digests in thirty-two. -/
inductive FieldEncoding.StartsAs (set : SchemaSet) :
    FieldEncoding → Option FieldDefault → FieldValue → Prop
  | int {w : Nat} {v : Int} (room : InRange 8 true v) :
      StartsAs set (.int w true) (some (.int v)) (.int v)
  | uint {w n : Nat} (room : InRange 8 false n) :
      StartsAs set (.int w false) (some (.int n)) (.uint n)
  | fixedBytes (b : Bytes) : StartsAs set (.fixedBytes b.length) (some (.bytes b)) (.bytes b)
  | varBytes (b : Bytes) : StartsAs set .varBytes (some (.bytes b)) (.bytes b)
  | script (b : Bytes) : StartsAs set .script (some (.bytes b)) (.script ⟨b⟩)
  | hash (h : Hash256) : StartsAs set .hash (some (.bytes h.bytes)) (.hash h)
  | zero (w : Nat) : StartsAs set (.int w true) none (.int 0)
  | unsignedZero (w : Nat) : StartsAs set (.int w false) none (.uint 0)
  | zeroBytes (w : Nat) : StartsAs set (.fixedBytes w) none (.bytes (List.replicate w 0))
  | noBytes : StartsAs set .varBytes none (.bytes [])
  | noScript : StartsAs set .script none (.script ⟨[]⟩)
  | zeroHash : StartsAs set .hash none (.hash Hash256.zero)
  | nested (k : EntityKind) : StartsAs set (.nested k) none (.record (Record.new set k))
  | vector (k : EntityKind) : StartsAs set (.vector k) none (.records [])

namespace FieldDescriptor

variable {n : Nat} {make : (k : EntityKind) → k.rank < n → Record} {f : FieldDescriptor}

lemma startsAs_none (hmake : ∀ k h, make k h = Record.new set k) (hd : f.default? = none)
    (hb : f.encoding.Below n) : f.encoding.StartsAs set none (f.defaultValue make hb) := by
  obtain ⟨name, e, presence, default?, tags⟩ := f
  cases hd
  cases e with
  | int w signed =>
    cases signed with
    | true => exact .zero w
    | false => exact .unsignedZero w
  | fixedBytes w => exact .zeroBytes w
  | varBytes => exact .noBytes
  | script => exact .noScript
  | hash => exact .zeroHash
  | nested k =>
    change FieldEncoding.StartsAs set _ none (.record (make k _))
    rw [hmake]
    exact .nested k
  | vector k => exact .vector k

lemma startsAs_some {d : FieldDefault} (hf : f.Sound) (hd : f.default? = some d)
    (hb : f.encoding.Below n) : f.encoding.StartsAs set (some d) (f.defaultValue make hb) := by
  have hfits := hf.default_fits d hd
  have hsized := hf.sized
  obtain ⟨name, e, presence, default?, tags⟩ := f
  cases hd
  cases d with
  | int v =>
    cases e with
    | int w signed =>
      have hw : w ≤ 8 := (hsized w signed rfl).2
      have hroom : InRange 8 signed v := ((intFits_iff hw signed v).1 hfits).mono hw
      cases signed with
      | true => exact .int hroom
      | false =>
        obtain ⟨n, rfl⟩ := Int.eq_ofNat_of_zero_le hroom.1
        exact .uint hroom
    | _ => cases hfits
  | bytes b =>
    cases e with
    | fixedBytes w =>
      have hlength : b.length = w := by simpa [FieldDefault.fits] using hfits
      subst hlength
      exact .fixedBytes b
    | varBytes => exact .varBytes b
    | script => exact .script b
    | hash =>
      have hlength : b.length = 32 := by simpa [FieldDefault.fits] using hfits
      obtain ⟨h, rfl⟩ : ∃ h : Hash256, h.bytes = b := ⟨⟨b, hlength⟩, rfl⟩
      change FieldEncoding.StartsAs set _ _ (.hash ((Hash256.ofBytes? h.bytes).getD Hash256.zero))
      rw [Hash256.ofBytes?_bytes]
      exact .hash h
    | _ => cases hfits

lemma startsAs_default (hmake : ∀ k h, make k h = Record.new set k) (hf : f.Sound)
    (hb : f.encoding.Below n) :
    f.encoding.StartsAs set f.default? (f.defaultValue make hb) := by
  cases hd : f.default? with
  | none => exact startsAs_none hmake hd hb
  | some d => exact startsAs_some hf hd hb

end FieldDescriptor

namespace Record

/-- **A new record** has a slot for each field of its kind. It is filled where the condition of the
field holds, with what the field starts as, and empty elsewhere. -/
lemma new_slot {i : Nat} {f : FieldDescriptor} (hf : (set.fields k)[i]? = some f) :
    if f.presence.holds ((new set k).slots.take i) then
      ∃ v, (new set k).slots[i]? = some (f, some v) ∧ f.encoding.StartsAs set f.default? v
    else (new set k).slots[i]? = some (f, none) := by
  have hi : i < (set.fields k).length := (List.getElem?_eq_some_iff.1 hf).1
  have htodo : ((set.fields k).zip (List.replicate (set.fields k).length
      (none : Option FieldValue)))[i]? = some (f, none) :=
    List.getElem?_zip_eq_some.2 ⟨hf, by rw [List.getElem?_replicate, if_pos hi]⟩
  have hfields : ((set.fields k).zip (List.replicate (set.fields k).length
      (none : Option FieldValue))).map (·.1) = set.fields k :=
    List.map_fst_zip (Nat.le_of_eq List.length_replicate.symm)
  have hvalue := settle_getElem? (newBelow set k.rank) [] (below_zip _ (set.below k)) htodo
  rw [List.nil_append, hfields] at hvalue
  have hslot : (new set k).slots[i]? = some (f, if f.presence.holds ((new set k).slots.take i) then
      some (f.defaultValue (newBelow set k.rank) (set.below k f (List.mem_of_getElem? hf)))
      else none) := List.getElem?_zip_eq_some.2 ⟨hf, hvalue⟩
  split_ifs at hslot ⊢
  · exact ⟨_, hslot, FieldDescriptor.startsAs_default (fun _ h => newBelow_eq_new h)
      (set.sound k f (List.mem_of_getElem? hf)) _⟩
  · exact hslot

lemma length_new (set : SchemaSet) (k : EntityKind) :
    (new set k).values.length = (set.fields k).length := by
  have h : (new set k).values.length = _ := length_settle _
  rw [h, List.length_zip, List.length_replicate, Nat.min_self]

end Record

end CoinScript
