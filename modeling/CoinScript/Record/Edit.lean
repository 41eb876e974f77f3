import CoinScript.Record.New

/-!
Changing a record.

Setting a field checks the value against the field's encoding and then lets conditional fields
appear or vanish. A nested record or a vector is changed through its place: what stands there,
and the whole record with something else there.
-/

namespace CoinScript

/-- A value in the form its field stores: integers take the field's sign rule, and thirty-two
bytes become a hash. -/
def FieldDescriptor.coerce (f : FieldDescriptor) (v : FieldValue) : Except Fault FieldValue :=
  let mismatch := .error (.encoding (.mismatch v.shown f.encoding f.name))
  match f.encoding, v with
  | .int width signed, .int n =>
    if !intFits n width signed then mismatch
    else if signed then .ok (.int n) else .ok (.uint n.toNat)
  | .int width signed, .uint n =>
    if !intFits n width signed then mismatch
    else if signed then .ok (.int n) else .ok (.uint n)
  | .fixedBytes width, .bytes b => if b.length = width then .ok (.bytes b) else mismatch
  | .varBytes, .bytes b => .ok (.bytes b)
  | .script, .script s => .ok (.script s)
  | .hash, .hash h => .ok (.hash h)
  | .hash, .bytes b =>
    match Hash256.ofBytes? b with
    | some h => .ok (.hash h)
    | none => mismatch
  | .nested k, .record r => if r.kind = k then .ok (.record r) else mismatch
  | .vector k, .records rs => if rs.all (·.kind = k) then .ok (.records rs) else mismatch
  | _, _ => mismatch

namespace Record

def put (r : Record) (position : Nat) (v : FieldValue) : Record :=
  mk r.schemas r.kind (r.values.set position (some v))

/-- Sets a present field. Conditional fields follow the new value. -/
def set (r : Record) (name : String) (v : FieldValue) : Except Fault Record :=
  match r.schema.position? name with
  | none => .error (.schema (.noField r.kind name))
  | some i =>
    match r.slots[i]? with
    | some (f, some _) => return (r.put i (← f.coerce v)).resettle
    | _ => .error (.encoding (.notPresent name r.kind))

/-- Sets an integer field. Numbers beyond eight bytes are refused whatever the field. -/
def setInt (r : Record) (name : String) (v : Int) : Except Fault Record :=
  if -0x8000000000000000 ≤ v ∧ v < 0x8000000000000000 then r.set name (.int v)
  else if 0 ≤ v ∧ v < 0x10000000000000000 then r.set name (.uint v.toNat)
  else .error (.encoding (.outOfRange v name))

/-! ### Places inside a record -/

/-- The nested record in a field, and the whole with another in its place. -/
def nested? (r : Record) (name : String) : Option (Record × (Record → Record)) := do
  let i ← r.schema.position? name
  let inner ← (r.values[i]?.join).bind FieldValue.record?
  return (inner, fun x => r.put i (.record x))

/-- The vector in a field, and the whole with another in its place. -/
def vector? (r : Record) (name : String) : Option (List Record × (List Record → Record)) := do
  let i ← r.schema.position? name
  let inner ← (r.values[i]?.join).bind FieldValue.records?
  return (inner, fun xs => r.put i (.records xs))

def element? (r : Record) (name : String) (index : Nat) :
    Option (Record × (Record → Record)) := do
  let (rs, put) ← r.vector? name
  let inner ← rs[index]?
  return (inner, fun x => put (rs.set index x))

/-- A step from a record into one that it holds. -/
inductive Step where
  | field (name : String)
  | element (name : String) (index : Nat)

def step? (r : Record) : Step → Option (Record × (Record → Record))
  | .field name => r.nested? name
  | .element name index => r.element? name index

/-- The record at the end of a path, and the whole with another in its place. -/
def at? : List Step → Record → Option (Record × (Record → Record))
  | [], r => some (r, fun x => x)
  | s :: path, r => do
    let (inner, put) ← r.step? s
    let (found, putInner) ← at? path inner
    return (found, fun x => put (putInner x))

/-- Appends to a vector, whatever the kind of the new record. -/
def push? (r : Record) (name : String) (new : Record) : Option Record := do
  let (rs, put) ← r.vector? name
  return put (rs ++ [new])

def truncate? (r : Record) (name : String) (size : Nat) : Option Record := do
  let (rs, put) ← r.vector? name
  return put (rs.take size)

end Record

end CoinScript
