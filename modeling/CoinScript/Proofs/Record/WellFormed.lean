import CoinScript.Proofs.Schema.Rules
import CoinScript.Record

/-!
Well-formed records: one slot for each field, filled exactly where the condition of the field
holds on the slots before it, and filled with a value of the field's encoding.

Nested records are well formed under the same schemas. The definition follows the layout, not
the code that reads, makes or changes records.
-/

namespace CoinScript

mutual

/-- A record of a kind, laid out by the schemas that it carries. -/
inductive Record.WellFormed (set : SchemaSet) : EntityKind → Record → Prop
  | mk {k : EntityKind} {values : List (Option FieldValue)}
      (settled : Record.Settled set [] (set.fields k) values) :
      Record.WellFormed set k (.mk set k values)

/-- The slots of some fields, which follow the slots `earlier`. -/
inductive Record.Settled (set : SchemaSet) : List (FieldDescriptor × Option FieldValue) →
    List FieldDescriptor → List (Option FieldValue) → Prop
  | nil {earlier} : Record.Settled set earlier [] []
  | filled {earlier f v fs vs} (holds : f.presence.holds earlier = true)
      (fits : FieldValue.Matches set f.encoding v)
      (rest : Record.Settled set (earlier ++ [(f, some v)]) fs vs) :
      Record.Settled set earlier (f :: fs) (some v :: vs)
  | absent {earlier f fs vs} (fails : f.presence.holds earlier = false)
      (rest : Record.Settled set (earlier ++ [(f, none)]) fs vs) :
      Record.Settled set earlier (f :: fs) (none :: vs)

/-- A value in the form that fields of an encoding store. -/
inductive FieldValue.Matches (set : SchemaSet) : FieldEncoding → FieldValue → Prop
  | int {w v} (fits : intFits v w true) : FieldValue.Matches set (.int w true) (.int v)
  | uint {w} {n : Nat} (fits : intFits n w false) : FieldValue.Matches set (.int w false) (.uint n)
  | fixedBytes (b : Bytes) : FieldValue.Matches set (.fixedBytes b.length) (.bytes b)
  | varBytes (b : Bytes) : FieldValue.Matches set .varBytes (.bytes b)
  | script (s : Script) : FieldValue.Matches set .script (.script s)
  | hash (h : Hash256) : FieldValue.Matches set .hash (.hash h)
  | nested {k r} (wf : Record.WellFormed set k r) : FieldValue.Matches set (.nested k) (.record r)
  | vector {k rs} (wf : ∀ r ∈ rs, Record.WellFormed set k r) :
      FieldValue.Matches set (.vector k) (.records rs)

end

lemma FieldValue.Matches.of_length {set : SchemaSet} {w : Nat} {b : Bytes} (h : b.length = w) :
    FieldValue.Matches set (.fixedBytes w) (.bytes b) :=
  h ▸ .fixedBytes b

namespace Record

variable {set : SchemaSet} {k : EntityKind} {r : Record}
  {earlier earlier' : List (FieldDescriptor × Option FieldValue)} {fs : List FieldDescriptor}
  {vs : List (Option FieldValue)}

lemma WellFormed.kind_eq (h : r.WellFormed set k) : r.kind = k := by
  cases h; rfl

lemma WellFormed.schemas_eq (h : r.WellFormed set k) : r.schemas = set := by
  cases h; rfl

lemma WellFormed.settled (h : r.WellFormed set k) : Settled set [] (set.fields k) r.values := by
  cases h; assumption

lemma Settled.length_eq (h : Settled set earlier fs vs) : vs.length = fs.length := by
  induction fs generalizing earlier vs with
  | nil => cases h; rfl
  | cons f fs ih =>
    cases h with
    | filled _ _ rest => simp [ih rest]
    | absent _ rest => simp [ih rest]

lemma Settled.fits_of_filled (h : Settled set earlier fs vs) {i : Nat} {v : FieldValue}
    (hv : vs[i]? = some (some v)) : ∃ f, fs[i]? = some f ∧ v.Matches set f.encoding := by
  induction fs generalizing earlier vs i with
  | nil => cases h; simp at hv
  | cons f fs ih =>
    cases h with
    | filled _ fits rest =>
      cases i with
      | zero =>
        cases hv
        exact ⟨f, rfl, fits⟩
      | succ i => exact ih rest hv
    | absent _ rest =>
      cases i with
      | zero => cases hv
      | succ i => exact ih rest hv

/-! ### What conditions look at -/

/-- The names and integers of slots, all that a presence condition looks at. -/
def integers (slots : List (FieldDescriptor × Option FieldValue)) : List (String × Option Int) :=
  slots.map fun p => (p.1.name, p.2.bind FieldValue.int?)

@[simp] lemma integers_append (a b : List (FieldDescriptor × Option FieldValue)) :
    integers (a ++ b) = integers a ++ integers b := List.map_append

lemma lookup_int? (slots : List (FieldDescriptor × Option FieldValue)) (name : String) :
    (lookup slots name).bind FieldValue.int? =
      ((integers slots).find? (·.1 = name)).bind (·.2) := by
  unfold lookup integers
  rw [List.find?_map, Option.bind_map, Option.bind_assoc]
  rfl

lemma holds_congr (h : integers earlier = integers earlier') (p : Presence) :
    p.holds earlier = p.holds earlier' := by
  unfold Presence.holds
  simp only [lookup_int?, h]

lemma Settled.congr (h : Settled set earlier fs vs) (he : integers earlier = integers earlier') :
    Settled set earlier' fs vs := by
  induction fs generalizing earlier earlier' vs with
  | nil => cases h; exact .nil
  | cons f fs ih =>
    cases h with
    | filled holds fits rest =>
      exact .filled (holds_congr he _ ▸ holds) fits (ih rest (by simp [he]))
    | absent fails rest =>
      exact .absent (holds_congr he _ ▸ fails) (ih rest (by simp [he]))

/-- Another value of the field with the same integer, or like it without one, may stand in a
filled slot: no condition sees the difference. -/
lemma Settled.replace (h : Settled set earlier fs vs) {i : Nat} {f : FieldDescriptor}
    {v w : FieldValue} (hf : fs[i]? = some f) (hv : vs[i]? = some (some v))
    (hint : w.int? = v.int?) (hw : w.Matches set f.encoding) :
    Settled set earlier fs (vs.set i (some w)) := by
  induction fs generalizing earlier vs i with
  | nil => simp at hf
  | cons g fs ih =>
    cases h with
    | filled holds fits rest =>
      cases i with
      | zero =>
        cases hf
        cases hv
        exact .filled holds hw (rest.congr (by simp [integers, hint]))
      | succ i => exact .filled holds fits (ih rest hf hv)
    | absent fails rest =>
      cases i with
      | zero => cases hv
      | succ i => exact .absent fails (ih rest hf hv)

end Record

end CoinScript
