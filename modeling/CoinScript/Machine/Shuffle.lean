import CoinScript.Machine.Effect

/-!
Opcodes that move, copy and drop stack items without looking at them.
-/

namespace CoinScript

/-- Rearrangements of a fixed number of items. -/
inductive Shuffle where
  | drop2
  | dup2
  | dup3
  | over2
  | rot2
  | swap2
  | drop
  | dup
  | nip
  | copySecond
  | rot
  | swap
  | tuck
  deriving DecidableEq

namespace Shuffle

/-- How many items must be there. -/
def required : Shuffle → Nat
  | drop | dup => 1
  | drop2 | dup2 | nip | copySecond | swap | tuck => 2
  | dup3 | rot => 3
  | over2 | swap2 => 4
  | rot2 => 6

/-- The rearranged stack, top first, if enough items are there. -/
def arrange? {α : Type} : Shuffle → List α → Option (List α)
  | drop2, _ :: _ :: s => some s
  | dup2, a :: b :: s => some (a :: b :: a :: b :: s)
  | dup3, a :: b :: c :: s => some (a :: b :: c :: a :: b :: c :: s)
  | over2, a :: b :: c :: d :: s => some (c :: d :: a :: b :: c :: d :: s)
  | rot2, a :: b :: c :: d :: e :: f :: s => some (e :: f :: a :: b :: c :: d :: s)
  | swap2, a :: b :: c :: d :: s => some (c :: d :: a :: b :: s)
  | drop, _ :: s => some s
  | dup, a :: s => some (a :: a :: s)
  | nip, a :: _ :: s => some (a :: s)
  | copySecond, a :: b :: s => some (b :: a :: b :: s)
  | rot, a :: b :: c :: s => some (c :: a :: b :: s)
  | swap, a :: b :: s => some (b :: a :: s)
  | tuck, a :: b :: s => some (a :: b :: a :: s)
  | _, _ => none

def log : Shuffle → String
  | drop2 => "dropped 2 items"
  | dup2 => "duplicated 2 items"
  | dup3 => "duplicated 3 items"
  | over2 => "copied 3rd and 4th items"
  | rot2 => "moved 5th and 6th items to the top"
  | swap2 => "swapped top pairs"
  | drop => "dropped top item"
  | dup => "duplicated top item"
  | nip => "removed second item"
  | copySecond => "copied second item"
  | rot => "rotated top 3 items"
  | swap => "swapped top 2 items"
  | tuck => "copied top item below second"

def effect (op : Shuffle) (name : String) : Effect := fun s =>
  match op.arrange? s with
  | some s => (.ok s!"{name}: {op.log}", s)
  | none => Effect.missing name op.required s

end Shuffle

namespace Effect

def ifDup (name : String) : Effect :=
  one name fun a =>
    if Number.truthy a then (.ok s!"{name}: duplicated true value", [a, a])
    else (.ok s!"{name}: false value not duplicated", [a])

def depth (name : String) : Effect := fun s =>
  (.ok s!"{name}: {s.length}", Number.encode s.length :: s)

def size (name : String) : Effect :=
  one name fun a => (.ok s!"{name}: {a.length} bytes", [Number.encode a.length, a])

/-- Takes an index off the stack and brings the item so far below to the top, away from its
place if `move` is set. -/
def pick (name : String) (move : Bool) : Effect
  | index :: below@(_ :: _) =>
    let outOfRange := Reply.stackFault (.indexOutOfRange name) (index :: below)
    match Number.decodeBounded? index with
    | none => outOfRange
    | some n =>
      if n < 0 then outOfRange
      else
        match below[n.toNat]? with
        | none => outOfRange
        | some a =>
          (.ok s!"{name}: item {n} to top", a :: if move then below.eraseIdx n.toNat else below)
  | s => missing name 2 s

end Effect

end CoinScript
