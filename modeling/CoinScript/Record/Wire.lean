import CoinScript.Record.New
import CoinScript.Wire.CompactSize

/-!
Records on the wire: reading by schema, and writing.

Fields follow one another without separators. Reading decides the presence of each field by
the fields before it, and writing gives exactly the bytes that were read.
-/

namespace CoinScript

namespace Read

def repeated {α : Type} (item : Read α) : (count : Nat) → Read (List α)
  | 0 => return []
  | count + 1 => do
    let a ← item
    let as ← repeated item count
    return a :: as

/-- The value of one field; `entity` reads records of a rank below `n`. -/
def field {n : Nat} (entity : (k : EntityKind) → k.rank < n → Read Record)
    (e : FieldEncoding) (h : e.Below n) : Read FieldValue :=
  match e, h with
  | .int width true, _ => return .int (← int width)
  | .int width false, _ => return .uint (← uint width)
  | .fixedBytes width, _ => return .bytes (← bytes width)
  | .varBytes, _ => return .bytes (← varBytes)
  | .script, _ => return .script ⟨← varBytes⟩
  | .hash, _ => return .hash (← hash)
  | .nested k, h => return .record (← entity k (h k rfl))
  | .vector k, h => do
    let count ← compactSize
    let c ← get
    if c.remaining < count then throw (.truncated c.offset count c.remaining)
    return .records (← repeated (entity k (h k rfl)) count)

/-- The slots of fields that follow `earlier`. -/
def slots {n : Nat} (entity : (k : EntityKind) → k.rank < n → Read Record) :
    (earlier : List (FieldDescriptor × Option FieldValue)) → (todo : List FieldDescriptor) →
    (∀ f ∈ todo, f.encoding.Below n) → Read (List (Option FieldValue))
  | _, [], _ => return []
  | earlier, f :: rest, h => do
    let slot ←
      if f.presence.holds earlier then
        some <$> field entity f.encoding (h f List.mem_cons_self)
      else pure none
    let slots ← slots entity (earlier ++ [(f, slot)]) rest fun g hg =>
      h g (List.mem_cons_of_mem _ hg)
    return slot :: slots

/-- A record of a kind whose rank is below `n`. -/
def recordBelow (set : SchemaSet) : (n : Nat) → (k : EntityKind) → k.rank < n → Read Record
  | 0, _, h => absurd h (Nat.not_lt_zero _)
  | n + 1, k, h => do
    let values ← slots (recordBelow set n) [] (set.fields k) fun f hf c hc =>
      Nat.lt_of_lt_of_le (set.below k f hf c hc) (Nat.le_of_lt_succ h)
    return .mk set k values

def record (set : SchemaSet) (k : EntityKind) : Read Record :=
  recordBelow set (k.rank + 1) k k.rank_lt_succ

end Read

/-! ### Writing -/

mutual

def Record.serialize : Record → Bytes
  | .mk set k values => Record.writeSlots (set.fields k) values

def Record.writeSlots : List FieldDescriptor → List (Option FieldValue) → Bytes
  | f :: fs, v? :: vs => Record.writeSlot f.encoding v? ++ Record.writeSlots fs vs
  | _, _ => []

def Record.writeSlot (e : FieldEncoding) : Option FieldValue → Bytes
  | none => []
  | some v => FieldValue.write e v

/-- The bytes of a value under an encoding. A value that does not match writes nothing. -/
def FieldValue.write : FieldEncoding → FieldValue → Bytes
  | .int width _, .int v => Bytes.ofIntLE width v
  | .int width _, .uint v => Bytes.ofNatLE width v
  | .fixedBytes _, .bytes b => b
  | .varBytes, .bytes b => CompactSize.encodeBytes b
  | .script, .script s => CompactSize.encodeBytes s.bytes
  | .hash, .hash h => h.bytes
  | .nested _, .record r => r.serialize
  | .vector _, .records rs => CompactSize.encode rs.length ++ Record.writeAll rs
  | _, _ => []

def Record.writeAll : List Record → Bytes
  | [] => []
  | r :: rs => r.serialize ++ Record.writeAll rs

end

namespace Record

/-- The record whose bytes these are, all of them. -/
def deserialize (set : SchemaSet) (k : EntityKind) (b : Bytes) : Except Fault Record := do
  let (r, c) ← (Read.record set k).run (Cursor.ofBytes b)
  if c.isEmpty then return r else throw (.encoding (.trailing c.remaining k))

end Record

end CoinScript
