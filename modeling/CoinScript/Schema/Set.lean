import CoinScript.Schema

/-!
The six schemas of a network, one for each kind of entity.
-/

namespace CoinScript

abbrev AnySchema := (kind : EntityKind) × Schema kind

/-- A schema for every kind. -/
structure SchemaSet where
  outpoint : Schema .outPoint
  txin : Schema .txIn
  txout : Schema .txOut
  transaction : Schema .transaction
  header : Schema .blockHeader
  block : Schema .block
  deriving DecidableEq

namespace SchemaSet

def get (s : SchemaSet) : (kind : EntityKind) → Schema kind
  | .outPoint => s.outpoint
  | .txIn => s.txin
  | .txOut => s.txout
  | .transaction => s.transaction
  | .blockHeader => s.header
  | .block => s.block

def fields (s : SchemaSet) (kind : EntityKind) : List FieldDescriptor :=
  (s.get kind).fields

theorem below (s : SchemaSet) (kind : EntityKind) :
    ∀ f ∈ s.fields kind, f.encoding.Below kind.rank :=
  (s.get kind).below

def replace (s : SchemaSet) : (kind : EntityKind) → Schema kind → SchemaSet
  | .outPoint, x => { s with outpoint := x }
  | .txIn, x => { s with txin := x }
  | .txOut, x => { s with txout := x }
  | .transaction, x => { s with transaction := x }
  | .blockHeader, x => { s with header := x }
  | .block, x => { s with block := x }

theorem get_replace (s : SchemaSet) (kind : EntityKind) (x : Schema kind) :
    (s.replace kind x).get kind = x := by
  cases kind <;> rfl

theorem get_replace_ne (s : SchemaSet) {kind other : EntityKind} (x : Schema kind)
    (h : other ≠ kind) : (s.replace kind x).get other = s.get other := by
  cases kind <;> cases other <;> simp_all [replace, get]

/-- A schema as one of the wanted kind, if it is of that kind. -/
def asKind (wanted : EntityKind) (s : AnySchema) : Except Fault (Schema wanted) :=
  if h : s.1 = wanted then .ok (h ▸ s.2) else .error (.schema (.wrongSlot s.1 wanted))

/-- Puts six schemas into their places; the first that is of another kind is a fault. -/
def assemble (outpoint txin txout transaction header block : AnySchema) :
    Except Fault SchemaSet := do
  let outpoint ← asKind .outPoint outpoint
  let txin ← asKind .txIn txin
  let txout ← asKind .txOut txout
  let transaction ← asKind .transaction transaction
  let header ← asKind .blockHeader header
  let block ← asKind .block block
  return ⟨outpoint, txin, txout, transaction, header, block⟩

end SchemaSet

end CoinScript
