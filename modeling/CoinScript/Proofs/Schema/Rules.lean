import Mathlib.Tactic.Common
import CoinScript.Schema.Set

/-!
What the rules of a schema say of each of its fields.

A schema carries the proof that the search for a broken rule found none. Here that proof is
taken apart: integers have one to eight bytes, a default is a value of its field, names are unique,
and a condition looks at an integer field before its own.
-/

namespace CoinScript

/-- Integers have one to eight bytes. -/
def FieldEncoding.Sized (e : FieldEncoding) : Prop :=
  ∀ w signed, e = .int w signed → 0 < w ∧ w ≤ 8

/-- A field whose integers have a proper width and whose default is a value of the field. -/
structure FieldDescriptor.Sound (f : FieldDescriptor) : Prop where
  sized : f.encoding.Sized
  default_fits : ∀ d, f.default? = some d → d.fits f.encoding

namespace Schema

variable {kind : EntityKind}

lemma sized_of_encodingFault?_none {f : FieldDescriptor} (h : encodingFault? kind f = none) :
    f.encoding.Sized := by
  intro w signed he
  simp only [encodingFault?, he] at h
  split at h
  · cases h
  · omega

lemma default_fits_of_defaultFault?_none {f : FieldDescriptor}
    (h : defaultFault? kind f = none) : ∀ d, f.default? = some d → d.fits f.encoding := by
  intro d hd
  simp only [defaultFault?, hd] at h
  split at h
  · assumption
  · cases h

lemma sound_of_fieldFault?_none {earlier : List FieldDescriptor} {f : FieldDescriptor}
    (h : fieldFault? kind earlier f = none) : f.Sound := by
  simp only [fieldFault?, Option.or_eq_none_iff] at h
  exact ⟨sized_of_encodingFault?_none h.1, default_fits_of_defaultFault?_none h.2.1⟩

lemma sound_of_fieldsFault?_none {earlier fields : List FieldDescriptor}
    (h : fieldsFault? kind earlier fields = none) : ∀ f ∈ fields, f.Sound := by
  induction fields generalizing earlier with
  | nil => simp
  | cons g rest ih =>
    simp only [fieldsFault?, Option.or_eq_none_iff] at h
    intro f hf
    rcases List.mem_cons.1 hf with rfl | hf
    · exact sound_of_fieldFault?_none h.1
    · exact ih h.2 f hf

/-! ### Names and conditions -/

lemma nodup_of_duplicateFault?_none {seen : List String} {fields : List FieldDescriptor}
    (h : duplicateFault? kind seen fields = none) :
    (fields.map (·.name)).Nodup ∧ ∀ f ∈ fields, f.name ∉ seen := by
  induction fields generalizing seen with
  | nil => simp
  | cons f rest ih =>
    rw [duplicateFault?] at h
    split at h
    · cases h
    · rename_i hfresh
      obtain ⟨hnodup, hrest⟩ := ih h
      simp only [List.mem_cons, not_or] at hrest
      refine ⟨?_, ?_⟩
      · rw [List.map_cons, List.nodup_cons]
        refine ⟨?_, hnodup⟩
        intro hmem
        obtain ⟨g, hg, hname⟩ := List.mem_map.1 hmem
        exact (hrest g hg).1 hname
      · intro g hg
        rcases List.mem_cons.1 hg with rfl | hg
        · exact hfresh
        · exact (hrest g hg).2

theorem nodup_names (s : Schema kind) : (s.fields.map (·.name)).Nodup := by
  have h := s.valid
  simp only [firstFault?, Option.or_eq_none_iff] at h
  exact (nodup_of_duplicateFault?_none h.1).1

lemma source_of_fieldsFault?_none {earlier fields : List FieldDescriptor}
    (h : fieldsFault? kind earlier fields = none) {i : Nat} {f : FieldDescriptor}
    (hf : fields[i]? = some f) {source : String} {bound : Int}
    (hp : f.presence = .greaterThan source bound) :
    ∃ g ∈ earlier ++ fields.take i, g.name = source ∧ g.encoding.isInt = true := by
  induction fields generalizing earlier i with
  | nil => simp at hf
  | cons g rest ih =>
    simp only [fieldsFault?, fieldFault?, Option.or_eq_none_iff] at h
    obtain ⟨⟨-, -, hpresence⟩, hrest⟩ := h
    -- the check has looked at this field itself, or the induction goes on with it among the
    -- earlier ones
    cases i with
    | zero =>
      cases hf
      simp only [presenceFault?, hp] at hpresence
      split at hpresence
      · cases hpresence
      · rename_i g' hg'
        have hint : g'.encoding.isInt = true := by
          by_contra hnot
          simp [hnot] at hpresence
        refine ⟨g', ?_, ?_, hint⟩
        · simpa using List.mem_of_find?_eq_some hg'
        · simpa using List.find?_some hg'
    | succ i =>
      obtain ⟨g', hg', hsource⟩ := ih hrest hf
      exact ⟨g', by simpa using hg', hsource⟩

theorem source_before (s : Schema kind) {i : Nat} {f : FieldDescriptor}
    (hf : s.fields[i]? = some f) {source : String} {bound : Int}
    (hp : f.presence = .greaterThan source bound) :
    ∃ j g, j < i ∧ s.fields[j]? = some g ∧ g.name = source ∧ g.encoding.isInt = true := by
  have h := s.valid
  simp only [firstFault?, Option.or_eq_none_iff] at h
  obtain ⟨g, hg, hsource⟩ := source_of_fieldsFault?_none h.2.1 hf hp
  rw [List.nil_append] at hg
  obtain ⟨j, hj⟩ := List.mem_iff_getElem?.1 hg
  rw [List.getElem?_take] at hj
  split at hj
  · rename_i hlt
    exact ⟨j, g, hlt, hj, hsource⟩
  · cases hj

end Schema

theorem SchemaSet.sound (set : SchemaSet) (kind : EntityKind) : ∀ f ∈ set.fields kind, f.Sound := by
  have h := (set.get kind).valid
  simp only [Schema.firstFault?, Option.or_eq_none_iff] at h
  exact Schema.sound_of_fieldsFault?_none h.2.1

end CoinScript
