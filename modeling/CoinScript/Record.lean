import CoinScript.Schema.Set
import CoinScript.Script

/-!
Entities as records: one slot for each field of the schema, empty where the field is absent.

A record carries the schemas it was made with, so it always writes the same bytes whatever
network is in use later. The values are plain data; that they match their fields is a
property of the records that reading, making and setting give, not a part of the type.
-/

namespace CoinScript

mutual

/-- An entity: the schemas it was made with, its kind and a slot for each field. -/
inductive Record where
  | mk (schemas : SchemaSet) (kind : EntityKind) (values : List (Option FieldValue))

/-- The value of one field. -/
inductive FieldValue where
  /-- A value of a signed integer field. -/
  | int (v : Int)
  /-- A value of an unsigned integer field. -/
  | uint (v : Nat)
  | bytes (b : Bytes)
  | hash (h : Hash256)
  | script (s : Script)
  | record (r : Record)
  | records (rs : List Record)

end

/-! ### Equality -/

mutual

def Record.decEq : (a b : Record) → Decidable (a = b)
  | .mk s k vs, .mk s' k' vs' =>
    if hk : k = k' then
      match Record.decEqValues vs vs' with
      | isTrue hv => if hs : s = s' then isTrue (by rw [hs, hk, hv]) else isFalse (by simp [hs])
      | isFalse hv => isFalse (by simp [hv])
    else isFalse (by simp [hk])

def Record.decEqValues : (as bs : List (Option FieldValue)) → Decidable (as = bs)
  | [], [] => isTrue rfl
  | [], _ :: _ | _ :: _, [] => isFalse (by simp)
  | a :: as, b :: bs =>
    match Record.decEqSlot a b with
    | isTrue h =>
      match Record.decEqValues as bs with
      | isTrue h' => isTrue (by rw [h, h'])
      | isFalse h' => isFalse (by simp [h'])
    | isFalse h => isFalse (by simp [h])

def Record.decEqSlot : (a b : Option FieldValue) → Decidable (a = b)
  | none, none => isTrue rfl
  | none, some _ | some _, none => isFalse (by simp)
  | some a, some b =>
    match FieldValue.decEq a b with
    | isTrue h => isTrue (by rw [h])
    | isFalse h => isFalse (by simp [h])

def FieldValue.decEq : (a b : FieldValue) → Decidable (a = b)
  | .int a, .int b => if h : a = b then isTrue (by rw [h]) else isFalse (by simp [h])
  | .uint a, .uint b => if h : a = b then isTrue (by rw [h]) else isFalse (by simp [h])
  | .bytes a, .bytes b => if h : a = b then isTrue (by rw [h]) else isFalse (by simp [h])
  | .hash a, .hash b => if h : a = b then isTrue (by rw [h]) else isFalse (by simp [h])
  | .script a, .script b => if h : a = b then isTrue (by rw [h]) else isFalse (by simp [h])
  | .record a, .record b =>
    match Record.decEq a b with
    | isTrue h => isTrue (by rw [h])
    | isFalse h => isFalse (by simp [h])
  | .records a, .records b =>
    match Record.decEqList a b with
    | isTrue h => isTrue (by rw [h])
    | isFalse h => isFalse (by simp [h])
  | .int _, .uint _ | .int _, .bytes _ | .int _, .hash _ | .int _, .script _ | .int _, .record _
  | .int _, .records _ | .uint _, .int _ | .uint _, .bytes _ | .uint _, .hash _
  | .uint _, .script _ | .uint _, .record _ | .uint _, .records _ | .bytes _, .int _
  | .bytes _, .uint _ | .bytes _, .hash _ | .bytes _, .script _ | .bytes _, .record _
  | .bytes _, .records _ | .hash _, .int _ | .hash _, .uint _ | .hash _, .bytes _
  | .hash _, .script _ | .hash _, .record _ | .hash _, .records _ | .script _, .int _
  | .script _, .uint _ | .script _, .bytes _ | .script _, .hash _ | .script _, .record _
  | .script _, .records _ | .record _, .int _ | .record _, .uint _ | .record _, .bytes _
  | .record _, .hash _ | .record _, .script _ | .record _, .records _ | .records _, .int _
  | .records _, .uint _ | .records _, .bytes _ | .records _, .hash _ | .records _, .script _
  | .records _, .record _ => isFalse (by simp)

def Record.decEqList : (as bs : List Record) → Decidable (as = bs)
  | [], [] => isTrue rfl
  | [], _ :: _ | _ :: _, [] => isFalse (by simp)
  | a :: as, b :: bs =>
    match Record.decEq a b with
    | isTrue h =>
      match Record.decEqList as bs with
      | isTrue h' => isTrue (by rw [h, h'])
      | isFalse h' => isFalse (by simp [h'])
    | isFalse h => isFalse (by simp [h])

end

instance : DecidableEq Record := Record.decEq
instance : DecidableEq FieldValue := FieldValue.decEq

namespace FieldValue

def int? : FieldValue → Option Int
  | int v => some v
  | uint v => some v
  | _ => none

def bytes? : FieldValue → Option Bytes
  | bytes b => some b
  | hash h => some h.bytes
  | _ => none

def script? : FieldValue → Option Script
  | script s => some s
  | _ => none

def record? : FieldValue → Option Record
  | record r => some r
  | _ => none

def records? : FieldValue → Option (List Record)
  | records rs => some rs
  | _ => none

def shown : FieldValue → ShownValue
  | int v => .int v
  | uint v => .uint v
  | bytes b => .bytes b
  | hash h => .hash h.bytes
  | script s => .script s.bytes
  | record _ => .record
  | records _ => .records

end FieldValue

namespace Record

def schemas : Record → SchemaSet
  | mk s _ _ => s

def kind : Record → EntityKind
  | mk _ k _ => k

def values : Record → List (Option FieldValue)
  | mk _ _ vs => vs

def schema (r : Record) : Schema r.kind := r.schemas.get r.kind

def descriptors (r : Record) : List FieldDescriptor := r.schemas.fields r.kind

def slots (r : Record) : List (FieldDescriptor × Option FieldValue) :=
  r.descriptors.zip r.values

/-- The fields that are present, in wire order. -/
def present (r : Record) : List (FieldDescriptor × FieldValue) :=
  r.slots.filterMap fun p => p.2.map (p.1, ·)

def lookup (slots : List (FieldDescriptor × Option FieldValue)) (name : String) :
    Option FieldValue :=
  (slots.find? (·.1.name = name)).bind (·.2)

def get? (r : Record) (name : String) : Option FieldValue :=
  lookup r.slots name

def int? (r : Record) (name : String) : Option Int :=
  (r.get? name).bind FieldValue.int?

def bytes? (r : Record) (name : String) : Option Bytes :=
  (r.get? name).bind FieldValue.bytes?

def script? (r : Record) (name : String) : Option Script :=
  (r.get? name).bind FieldValue.script?

def record? (r : Record) (name : String) : Option Record :=
  (r.get? name).bind FieldValue.record?

def records? (r : Record) (name : String) : Option (List Record) :=
  (r.get? name).bind FieldValue.records?

end Record

/-- Whether a field is present, given the fields before it. A condition on a field that is
absent or no integer does not hold. -/
def Presence.holds (p : Presence) (earlier : List (FieldDescriptor × Option FieldValue)) : Bool :=
  match p with
  | .always => true
  | .greaterThan source bound =>
    ((Record.lookup earlier source).bind FieldValue.int?).any fun v => bound < v

end CoinScript
