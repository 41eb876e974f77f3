import CoinScript.Proofs.Record.Settling

/-!
What a field stores of a value it is given.

Integers come in two forms and are kept in the form of the field, hashes may come as thirty-two
bytes, and everything else is kept as it is. Of nested entities only the kind matters: what they
hold is not looked at.
-/

namespace CoinScript

def InRange (width : Nat) (signed : Bool) (n : Int) : Prop :=
  if signed then -(Nat.pow 2 (8 * width - 1) : Int) ≤ n ∧ n < Nat.pow 2 (8 * width - 1)
  else 0 ≤ n ∧ n < Nat.pow 2 (8 * width)

lemma intFits_iff {w : Nat} (hw : w ≤ 8) (signed : Bool) (n : Int) :
    intFits n w signed = true ↔ InRange w signed n := by
  have hmin : min w 8 = w := Nat.min_eq_left hw
  cases signed with
  | true => simp [intFits, InRange, hmin]
  | false => simp [intFits, InRange, hmin]

lemma InRange.mono {w m : Nat} {signed : Bool} {n : Int} (hw : w ≤ m) (h : InRange w signed n) :
    InRange m signed n := by
  have hpow {a b : Nat} (hab : a ≤ b) : (Nat.pow 2 a : Int) ≤ Nat.pow 2 b :=
    Int.ofNat_le.2 (Nat.pow_le_pow_right (by decide) hab)
  cases signed with
  | true =>
    have hbound := hpow (show 8 * w - 1 ≤ 8 * m - 1 by omega)
    exact ⟨Int.le_trans (Int.neg_le_neg hbound) h.1, Int.lt_of_lt_of_le h.2 hbound⟩
  | false => exact ⟨h.1, Int.lt_of_lt_of_le h.2 (hpow (by omega))⟩

lemma InRange.bounds {w : Nat} {signed : Bool} {n : Int} (hw : w ≤ 8) (h : InRange w signed n) :
    -0x8000000000000000 ≤ n ∧ n < 0x10000000000000000 := by
  have hwide := h.mono hw
  cases signed with
  | true => exact ⟨hwide.1, Int.lt_trans hwide.2 (by decide)⟩
  | false => exact ⟨Int.le_trans (by decide) hwide.1, hwide.2⟩

/-- `e.Stores v u`: a field of the encoding takes the value `v` and keeps it as `u`. -/
inductive FieldEncoding.Stores : FieldEncoding → FieldValue → FieldValue → Prop
  | int {w : Nat} {v : FieldValue} {n : Int} (hv : v.int? = some n) (hn : InRange w true n) :
      Stores (.int w true) v (.int n)
  | uint {w : Nat} {v : FieldValue} {n : Nat} (hv : v.int? = some (n : Int))
      (hn : InRange w false n) : Stores (.int w false) v (.uint n)
  | fixedBytes (b : Bytes) : Stores (.fixedBytes b.length) (.bytes b) (.bytes b)
  | varBytes (b : Bytes) : Stores .varBytes (.bytes b) (.bytes b)
  | script (s : Script) : Stores .script (.script s) (.script s)
  | hash (h : Hash256) : Stores .hash (.hash h) (.hash h)
  | hashBytes {b : Bytes} {h : Hash256} (hb : h.bytes = b) : Stores .hash (.bytes b) (.hash h)
  | nested (x : Record) : Stores (.nested x.kind) (.record x) (.record x)
  | vector {k : EntityKind} {xs : List Record} (hk : ∀ x ∈ xs, x.kind = k) :
      Stores (.vector k) (.records xs) (.records xs)

def FieldValue.parts : FieldValue → List Record
  | .record r => [r]
  | .records rs => rs
  | _ => []

namespace FieldEncoding

variable {e : FieldEncoding} {u v : FieldValue} {set : SchemaSet}

lemma Stores.again (h : e.Stores v u) : e.Stores u u := by
  cases h with
  | int _ hn => exact .int rfl hn
  | uint _ hn => exact .uint rfl hn
  | fixedBytes b => exact .fixedBytes b
  | varBytes b => exact .varBytes b
  | script s => exact .script s
  | hash h => exact .hash h
  | hashBytes _ => exact .hash _
  | nested x => exact .nested x
  | vector hk => exact .vector hk

lemma Stores.int?_eq {n : Int} (h : e.Stores v u) (hv : v.int? = some n) : u.int? = some n := by
  cases h with
  | int hv' _ => exact hv'.symm.trans hv
  | uint hv' _ => exact hv'.symm.trans hv
  | _ => cases hv

lemma Stores.isInt_eq_false (h : e.Stores v u) (hv : v.int? = none) : e.isInt = false := by
  cases h with
  | int hv' => cases hv'.symm.trans hv
  | uint hv' => cases hv'.symm.trans hv
  | _ => rfl

lemma Stores.of_script {s : Script} (h : e.Stores (.script s) u) : e = .script ∧ u = .script s := by
  cases h with
  | script => exact ⟨rfl, rfl⟩
  | int hv => cases hv
  | uint hv => cases hv

lemma Stores.of_hash {h : Hash256} (hs : e.Stores (.hash h) u) : e = .hash ∧ u = .hash h := by
  cases hs with
  | hash => exact ⟨rfl, rfl⟩
  | int hv => cases hv
  | uint hv => cases hv

lemma Stores.of_record {x : Record} (h : e.Stores (.record x) u) :
    e = .nested x.kind ∧ u = .record x := by
  cases h with
  | nested => exact ⟨rfl, rfl⟩
  | int hv => cases hv
  | uint hv => cases hv

lemma exists_stores_iff {n : Int} (hv : v.int? = some n) :
    (∃ u, e.Stores v u) ↔ ∃ w signed, e = .int w signed ∧ InRange w signed n := by
  constructor
  · rintro ⟨u, h⟩
    cases h with
    | int hv' hn =>
      cases hv.symm.trans hv'
      exact ⟨_, true, rfl, hn⟩
    | uint hv' hn =>
      cases hv.symm.trans hv'
      exact ⟨_, false, rfl, hn⟩
    | _ => cases hv
  · rintro ⟨w, signed, rfl, hn⟩
    cases signed with
    | true => exact ⟨_, .int hv hn⟩
    | false =>
      have hnat : (n.toNat : Int) = n := Int.toNat_of_nonneg hn.1
      exact ⟨_, .uint (n := n.toNat) (by rw [hv, hnat]) (by rwa [hnat])⟩

lemma Stores.of_matches (he : e.Sized) (h : v.Matches set e) : e.Stores v v := by
  cases h with
  | int fits => exact .int rfl ((intFits_iff (he _ _ rfl).2 _ _).1 fits)
  | uint fits => exact .uint rfl ((intFits_iff (he _ _ rfl).2 _ _).1 fits)
  | fixedBytes b => exact .fixedBytes b
  | varBytes b => exact .varBytes b
  | script s => exact .script s
  | hash h => exact .hash h
  | nested wf =>
    have hk := wf.kind_eq
    subst hk
    exact .nested _
  | vector wf => exact .vector fun x hx => (wf x hx).kind_eq

lemma Stores.matches (he : e.Sized) (h : e.Stores v u)
    (hv : ∀ x ∈ v.parts, x.WellFormed set x.kind) : u.Matches set e := by
  cases h with
  | int _ hn => exact .int ((intFits_iff (he _ _ rfl).2 _ _).2 hn)
  | uint _ hn => exact .uint ((intFits_iff (he _ _ rfl).2 _ _).2 hn)
  | fixedBytes b => exact .fixedBytes b
  | varBytes b => exact .varBytes b
  | script s => exact .script s
  | hash h => exact .hash h
  | hashBytes _ => exact .hash _
  | nested x => exact .nested (hv x (List.mem_singleton_self x))
  | vector hk => exact .vector fun x hx => hk x hx ▸ hv x hx

end FieldEncoding

lemma Hash256.ofBytes?_eq_some {b : Bytes} {h : Hash256} :
    Hash256.ofBytes? b = some h ↔ h.bytes = b := by
  unfold Hash256.ofBytes?
  constructor
  · intro hb
    split at hb
    · cases hb
      rfl
    · cases hb
  · rintro rfl
    rw [dif_pos h.size]

namespace FieldDescriptor

variable {f : FieldDescriptor} {u v : FieldValue}

lemma coerce_int {w : Nat} {signed : Bool} {n : Int} (he : f.encoding = .int w signed)
    (hv : v.int? = some n) :
    f.coerce v = if intFits n w signed then .ok (if signed then .int n else .uint n.toNat)
      else .error (.encoding (.mismatch v.shown f.encoding f.name)) := by
  unfold FieldDescriptor.coerce
  cases v with
  | int m =>
    cases hv
    simp only [he]
    cases intFits n w signed <;> cases signed <;> simp
  | uint m =>
    cases hv
    simp only [he]
    cases intFits m w signed <;> cases signed <;> simp
  | _ => cases hv

lemma stores_of_coerce_int {w : Nat} {signed : Bool} (he : f.encoding = .int w signed) (hw : w ≤ 8)
    {n : Int} (hv : v.int? = some n) (h : f.coerce v = .ok u) :
    (FieldEncoding.int w signed).Stores v u := by
  rw [coerce_int he hv] at h
  split at h
  · rename_i hfit
    have hn := (intFits_iff hw signed n).1 hfit
    cases h
    cases signed with
    | true => exact .int hv hn
    | false =>
      have hnat : (n.toNat : Int) = n := Int.toNat_of_nonneg hn.1
      exact .uint (by rw [hv, hnat]) (by rwa [hnat])
  · cases h

lemma stores_of_coerce (hf : f.encoding.Sized) (h : f.coerce v = .ok u) :
    f.encoding.Stores v u := by
  cases he : f.encoding with
  | int w signed =>
    have hw := (hf w signed he).2
    cases v with
    | int n => exact stores_of_coerce_int he hw rfl h
    | uint n => exact stores_of_coerce_int he hw rfl h
    | _ => simp [coerce, he] at h
  | fixedBytes w =>
    cases v with
    | bytes b =>
      simp only [coerce, he] at h
      split at h
      · rename_i hlen
        cases h
        exact hlen ▸ .fixedBytes b
      · cases h
    | _ => simp [coerce, he] at h
  | varBytes =>
    cases v with
    | bytes b =>
      simp only [coerce, he] at h
      cases h
      exact .varBytes b
    | _ => simp [coerce, he] at h
  | script =>
    cases v with
    | script s =>
      simp only [coerce, he] at h
      cases h
      exact .script s
    | _ => simp [coerce, he] at h
  | hash =>
    cases v with
    | hash x =>
      simp only [coerce, he] at h
      cases h
      exact .hash x
    | bytes b =>
      simp only [coerce, he] at h
      split at h
      · rename_i hb
        cases h
        exact .hashBytes (Hash256.ofBytes?_eq_some.1 hb)
      · cases h
    | _ => simp [coerce, he] at h
  | nested k =>
    cases v with
    | record x =>
      simp only [coerce, he] at h
      split at h
      · rename_i hk
        cases h
        exact hk ▸ .nested x
      · cases h
    | _ => simp [coerce, he] at h
  | vector k =>
    cases v with
    | records xs =>
      simp only [coerce, he] at h
      split at h
      · rename_i hk
        cases h
        simp only [List.all_eq_true, decide_eq_true_eq] at hk
        exact .vector hk
      · cases h
    | _ => simp [coerce, he] at h

lemma coerce_of_stores (hf : f.encoding.Sized) (h : f.encoding.Stores v u) :
    f.coerce v = .ok u := by
  generalize he : f.encoding = e at h
  cases h with
  | int hv hn =>
    have hfit := (intFits_iff (hf _ _ he).2 _ _).2 hn
    rw [coerce_int he hv, hfit]
    rfl
  | uint hv hn =>
    have hfit := (intFits_iff (hf _ _ he).2 _ _).2 hn
    rw [coerce_int he hv, hfit]
    rfl
  | hashBytes hb => simp [coerce, he, Hash256.ofBytes?_eq_some.2 hb]
  | vector hk => simpa [coerce, he] using hk
  | _ => simp [coerce, he]

theorem coerce_eq_ok (hf : f.encoding.Sized) : f.coerce v = .ok u ↔ f.encoding.Stores v u :=
  ⟨stores_of_coerce hf, coerce_of_stores hf⟩

end FieldDescriptor

end CoinScript
