import CoinScript.Record

/-!
New records: every present field at its default.

Making a record fills its slots in order, each looking at the slots before it. A nested field
takes a new record of a lower rank, so the recursion is on a bound of the rank.
-/

namespace CoinScript

namespace FieldDescriptor

/-- The default of an integer field, zero where none is given. -/
def defaultInt (f : FieldDescriptor) : Int :=
  match f.default? with
  | some (.int v) => v
  | _ => 0

def defaultBytes? (f : FieldDescriptor) : Option Bytes :=
  match f.default? with
  | some (.bytes b) => some b
  | _ => none

/-- The value of a newly present field; `make` gives new records of a rank below `n`. -/
def defaultValue {n : Nat} (make : (k : EntityKind) → k.rank < n → Record)
    (f : FieldDescriptor) (h : f.encoding.Below n) : FieldValue :=
  match he : f.encoding with
  | .int _ true => .int f.defaultInt
  | .int _ false => .uint f.defaultInt.toNat
  | .fixedBytes width => .bytes (f.defaultBytes?.getD (List.replicate width 0))
  | .varBytes => .bytes (f.defaultBytes?.getD [])
  | .script => .script ⟨f.defaultBytes?.getD []⟩
  | .hash => .hash ((f.defaultBytes?.bind Hash256.ofBytes?).getD Hash256.zero)
  | .nested k => .record (make k (h k (by rw [he]; rfl)))
  | .vector _ => .records []

end FieldDescriptor

namespace Record

/-- Fills the slots that a condition opens with their defaults and empties those it closes,
in order. `earlier` are the slots already done. -/
def settle {n : Nat} (make : (k : EntityKind) → k.rank < n → Record) :
    (earlier todo : List (FieldDescriptor × Option FieldValue)) →
    (∀ p ∈ todo, p.1.encoding.Below n) → List (Option FieldValue)
  | _, [], _ => []
  | earlier, (f, v?) :: rest, h =>
    let slot :=
      if f.presence.holds earlier then
        some (v?.getD (f.defaultValue make (h _ List.mem_cons_self)))
      else none
    slot :: settle make (earlier ++ [(f, slot)]) rest fun p hp => h p (List.mem_cons_of_mem _ hp)

theorem below_zip {n : Nat} {fields : List FieldDescriptor} (values : List (Option FieldValue))
    (h : ∀ f ∈ fields, f.encoding.Below n) :
    ∀ p ∈ fields.zip values, p.1.encoding.Below n :=
  fun p hp => h p.1 (List.of_mem_zip (show (p.1, p.2) ∈ _ from hp)).1

/-- A new record of a kind whose rank is below `n`. -/
def newBelow (set : SchemaSet) : (n : Nat) → (k : EntityKind) → k.rank < n → Record
  | 0, _, h => absurd h (Nat.not_lt_zero _)
  | n + 1, k, h =>
    mk set k <| settle (newBelow set n) []
      ((set.fields k).zip (List.replicate (set.fields k).length none))
      (below_zip _ fun f hf c hc =>
        Nat.lt_of_lt_of_le (set.below k f hf c hc) (Nat.le_of_lt_succ h))

/-- A new record: every present field at its default. -/
def new (set : SchemaSet) (k : EntityKind) : Record :=
  newBelow set (k.rank + 1) k k.rank_lt_succ

/-- The record with its slots settled again, after one of them changed. -/
def resettle (r : Record) : Record :=
  mk r.schemas r.kind <| settle (fun k _ => new r.schemas k) [] r.slots
    (below_zip _ (r.schemas.below r.kind))

end Record

end CoinScript
