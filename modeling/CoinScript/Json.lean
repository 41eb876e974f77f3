import CoinScript.Json.Numeral

/-!
JSON texts as trees, with what a reader may still refuse left in them.

A string whose escapes do not pair up, or a number too large for a float, is no fault where the
value is skipped; and a key that comes twice may be one or not. So the tree keeps them, and
the readers decide.
-/

namespace CoinScript

/-- A JSON text as a tree. -/
inductive Json where
  | null
  | bool (b : Bool)
  | number (n : Numeral)
  /-- Nothing stands for a string whose escapes do not pair up. -/
  | string (s? : Option String)
  | array (items : List Json)
  | object (members : List (Option String × Json))

namespace Json

mutual

def depth : Json → Nat
  | array items => depthItems items + 1
  | object members => depthMembers members + 1
  | _ => 0

def depthItems : List Json → Nat
  | [] => 0
  | j :: js => max (depth j) (depthItems js)

def depthMembers : List (Option String × Json) → Nat
  | [] => 0
  | (_, j) :: ms => max (depth j) (depthMembers ms)

end

mutual

def isProper : Json → Bool
  | number n => n.isFinite
  | string s? => s?.isSome
  | array items => properItems items
  | object members => properMembers members
  | _ => true

def properItems : List Json → Bool
  | [] => true
  | j :: js => isProper j && properItems js

def properMembers : List (Option String × Json) → Bool
  | [] => true
  | (k, j) :: ms => k.isSome && isProper j && properMembers ms

end

def string? : Json → Option String
  | string s? => s?
  | _ => none

def bool? : Json → Option Bool
  | bool b => some b
  | _ => none

def intIn? (low high : Int) : Json → Option Int
  | number n => n.int?.filter fun v => low ≤ v ∧ v ≤ high
  | _ => none

def list? {α : Type} (item : Json → Option α) : Json → Option (List α)
  | array items => items.mapM item
  | _ => none

def optional? {α : Type} (read : Json → Option α) : Json → Option (Option α)
  | null => some none
  | j => (read j).map some

/-- The only member with a key; fails if there are several. -/
def member? (members : List (Option String × Json)) (key : String) : Option (Option Json) :=
  match members.filter (·.1 = some key) with
  | [] => some none
  | [m] => some (some m.2)
  | _ => none

/-- The values under some keys, in the order of the keys: from an object by name, other keys
being ignored, or from an array by position. -/
def fields? (keys : List String) : Json → Option (List (Option Json))
  | object members =>
    if members.all (·.1.isSome) then keys.mapM (member? members) else none
  | array items =>
    if items.length ≤ keys.length then
      some (items.map some ++ List.replicate (keys.length - items.length) none)
    else none
  | _ => none

/-- A table from strings to strings in the order of its keys. Of equal keys the last counts. -/
def table? : Json → Option (List (String × String))
  | object members => do
    let entries ← members.mapM fun m => do return (← m.1, ← m.2.string?)
    return entries.foldl insert []
  | _ => none
where
  /-- Puts an entry where its key belongs, over an entry with the same key. -/
  insert : List (String × String) → String × String → List (String × String)
    | [], e => [e]
    | f :: rest, e =>
      if e.1 = f.1 then e :: rest
      else if e.1 < f.1 then e :: f :: rest
      else f :: insert rest e

end Json

end CoinScript
