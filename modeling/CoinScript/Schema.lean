import CoinScript.Fault

/-!
Schemas: the ordered fields that lay out one kind of entity.

A schema carries the proof that no rule is broken: names are unique, integers take one to
eight bytes, entities only hold entities of lower rank, defaults fit their encoding, a
presence condition looks at an earlier integer field, and transactions and blocks have the
vectors they need. `Schema.firstFault?` looks for a broken rule in the order in which faults
are reported.
-/

namespace CoinScript

namespace Schema

/-- The first field whose name is among `seen` or repeats an earlier one. -/
def duplicateFault? (kind : EntityKind) : (seen : List String) → List FieldDescriptor →
    Option SchemaFault
  | _, [] => none
  | seen, f :: rest =>
    if f.name ∈ seen then some (.duplicateField kind f.name)
    else duplicateFault? kind (f.name :: seen) rest

/-- Whether an integer has no proper width or an entity no lower rank. -/
def encodingFault? (kind : EntityKind) (f : FieldDescriptor) : Option SchemaFault :=
  match f.encoding with
  | .int width _ =>
    if width = 0 ∨ 8 < width then some (.integerWidth kind f.name width) else none
  | .nested inner | .vector inner =>
    if kind.rank ≤ inner.rank then some (.containment kind f.name inner) else none
  | _ => none

/-- Whether a default is no value of the field. -/
def defaultFault? (kind : EntityKind) (f : FieldDescriptor) : Option SchemaFault :=
  match f.default? with
  | none => none
  | some d => if d.fits f.encoding then none else some (.defaultMismatch kind f.name)

/-- Whether the presence condition looks at something else than an earlier integer field. -/
def presenceFault? (kind : EntityKind) (earlier : List FieldDescriptor) (f : FieldDescriptor) :
    Option SchemaFault :=
  match f.presence with
  | .always => none
  | .greaterThan source _ =>
    match earlier.find? (·.name = source) with
    | none => some (.presenceNotEarlier kind f.name source)
    | some g => if g.encoding.isInt then none else some (.presenceNotInteger kind f.name source)

/-- The first fault of a field: of its encoding, its default, its presence. -/
def fieldFault? (kind : EntityKind) (earlier : List FieldDescriptor) (f : FieldDescriptor) :
    Option SchemaFault :=
  (encodingFault? kind f).or ((defaultFault? kind f).or (presenceFault? kind earlier f))

/-- The first fault of the fields that follow `earlier`. -/
def fieldsFault? (kind : EntityKind) : (earlier : List FieldDescriptor) → List FieldDescriptor →
    Option SchemaFault
  | _, [] => none
  | earlier, f :: rest =>
    (fieldFault? kind earlier f).or (fieldsFault? kind (earlier ++ [f]) rest)

def vectorCount (fields : List FieldDescriptor) (inner : EntityKind) : Nat :=
  fields.countP (·.encoding = .vector inner)

/-- Whether a transaction or a block has not the vectors it needs. -/
def vectorFault? (kind : EntityKind) (fields : List FieldDescriptor) : Option SchemaFault :=
  match kind with
  | .transaction =>
    if vectorCount fields .txIn = 1 ∧ vectorCount fields .txOut = 1 then none
    else some .inputOutputVectors
  | .block => if vectorCount fields .transaction = 1 then none else some .transactionVector
  | _ => none

/-- The first broken rule: names, then each field in turn, then the vectors. -/
def firstFault? (kind : EntityKind) (fields : List FieldDescriptor) : Option SchemaFault :=
  (duplicateFault? kind [] fields).or
    ((fieldsFault? kind [] fields).or (vectorFault? kind fields))

end Schema

/-- The layout of one kind of entity. -/
structure Schema (kind : EntityKind) where
  fields : List FieldDescriptor
  valid : Schema.firstFault? kind fields = none
  deriving DecidableEq

namespace Schema

variable {kind : EntityKind}

/-- The schema with these fields, unless they break a rule. -/
def ofFields (kind : EntityKind) (fields : List FieldDescriptor) : Except Fault (Schema kind) :=
  match h : firstFault? kind fields with
  | none => .ok ⟨fields, h⟩
  | some fault => .error (.schema fault)

/-- The place of the first field with a name. -/
def position? (s : Schema kind) (name : String) : Option Nat :=
  s.fields.findIdx? (·.name = name)

/-- The first field with a name. -/
def field? (s : Schema kind) (name : String) : Option FieldDescriptor :=
  s.fields.find? (·.name = name)

/-- The name of the first field that is a vector of a kind. -/
def vectorField? (s : Schema kind) (inner : EntityKind) : Option String :=
  (s.fields.find? (·.encoding = .vector inner)).map (·.name)

/-- The name of the first field that nests a kind in place. -/
def nestedField? (s : Schema kind) (inner : EntityKind) : Option String :=
  (s.fields.find? (·.encoding = .nested inner)).map (·.name)

/-! ### Entities hold entities of lower rank -/

theorem encodingFault?_none {f : FieldDescriptor} (h : encodingFault? kind f = none) :
    f.encoding.Below kind.rank := by
  intro k hk
  cases he : f.encoding <;> simp_all [FieldEncoding.child?, encodingFault?]

theorem fieldsFault?_none {earlier fields : List FieldDescriptor}
    (h : fieldsFault? kind earlier fields = none) :
    ∀ f ∈ fields, f.encoding.Below kind.rank := by
  induction fields generalizing earlier with
  | nil => simp
  | cons g rest ih =>
    simp only [fieldsFault?, fieldFault?, Option.or_eq_none_iff] at h
    intro f hf
    rcases List.mem_cons.1 hf with rfl | hf
    · exact encodingFault?_none h.1.1
    · exact ih h.2 f hf

theorem below (s : Schema kind) : ∀ f ∈ s.fields, f.encoding.Below kind.rank := by
  have h := s.valid
  simp only [firstFault?, Option.or_eq_none_iff] at h
  exact fieldsFault?_none h.2.1

end Schema

end CoinScript
