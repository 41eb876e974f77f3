import Mathlib.Tactic.Common
import CoinScript.Machine

/-!
Computations that go by positions.

Here a stack is what it is in memory, a row of items with the bottom first, and an opcode reads it
and puts it together by positions that it computes from its length. A position out of range, a
length taken from a shorter one and a division by zero have no result at all, whereas a fault is a
result like any other. So a computation that always has a result never leaves its range.
-/

namespace CoinScript

/-! ### Ranges -/

namespace Ranged

variable {α : Type}

/-- What is left of a length when another is taken off. -/
def minus? (a b : Nat) : Option Nat :=
  if b ≤ a then some (a - b) else none

def slice? (xs : List α) (start stop : Nat) : Option (List α) :=
  if start ≤ stop ∧ stop ≤ xs.length then some ((xs.take stop).drop start) else none

/-- Takes a part out of a row. -/
def drain? (xs : List α) (start stop : Nat) : Option (List α × List α) := do
  let part ← slice? xs start stop
  return (part, xs.take start ++ xs.drop stop)

def remove? (xs : List α) (i : Nat) : Option (α × List α) := do
  let a ← xs[i]?
  return (a, xs.eraseIdx i)

def insert? (xs : List α) (i : Nat) (a : α) : Option (List α) :=
  if i ≤ xs.length then some (xs.take i ++ a :: xs.drop i) else none

def swap? (xs : List α) (i j : Nat) : Option (List α) := do
  let a ← xs[i]?
  let b ← xs[j]?
  return (xs.set i b).set j a

/-- Moves the first items behind a position to the end. -/
def rotate? (xs : List α) (start count : Nat) : Option (List α) := do
  let part ← slice? xs start xs.length
  if count ≤ part.length then return xs.take start ++ (part.drop count ++ part.take count)
  else none

def quotient? (a b : Int) : Option Int :=
  if b = 0 then none else some (a.tdiv b)

def remainder? (a b : Int) : Option Int :=
  if b = 0 then none else some (a.tmod b)

/-! #### Positions above some items

A row is `xs ++ ys`, where `ys` is the part at the top that an opcode looks at. -/

variable {xs ys : List α} {a b : α} {n : Nat}

lemma minus?_of_le {m n : Nat} (h : n ≤ m) : minus? m n = some (m - n) := if_pos h

lemma slice?_append (hn : n ≤ ys.length) :
    slice? (xs ++ ys) xs.length (xs.length + n) = some (ys.take n) := by
  have hrange : xs.length ≤ xs.length + n ∧ xs.length + n ≤ (xs ++ ys).length := by
    rw [List.length_append]
    omega
  rw [slice?, if_pos hrange, List.take_length_add_append, List.drop_left]

lemma drain?_append (hn : n ≤ ys.length) :
    drain? (xs ++ ys) xs.length (xs.length + n) = some (ys.take n, xs ++ ys.drop n) := by
  simp [drain?, slice?_append hn, List.drop_length_add_append]

lemma getElem?_append_add {i : Nat} : (xs ++ ys)[xs.length + i]? = ys[i]? := by
  rw [List.getElem?_append_right (Nat.le_add_right _ _), Nat.add_sub_cancel_left]

lemma remove?_append : remove? (xs ++ a :: ys) xs.length = some (a, xs ++ ys) := by
  simp [remove?, List.eraseIdx_append_of_length_le]

lemma insert?_append : insert? (xs ++ ys) xs.length a = some (xs ++ a :: ys) := by
  simp [insert?]

lemma swap?_append : swap? (xs ++ [b, a]) (xs.length + 1) xs.length = some (xs ++ [a, b]) := by
  simp [swap?]

lemma rotate?_append (hn : n ≤ ys.length) :
    rotate? (xs ++ ys) xs.length n = some (xs ++ (ys.drop n ++ ys.take n)) := by
  have hpart : slice? (xs ++ ys) xs.length (xs.length + ys.length) = some ys := by
    rw [slice?_append (Nat.le_refl _), List.take_length]
  simp [rotate?, hpart, hn]

end Ranged

/-! ### Computations -/

/-- A computation on a row of items. It has a result, unless it goes out of range: a value or a
fault, and the row as it is by then. -/
def Positional (α : Type) := List Bytes → Option (Except Fault α × List Bytes)

namespace Positional

variable {α β : Type}

instance : Monad Positional where
  pure a := fun row => some (.ok a, row)
  bind x f := fun row =>
    match x row with
    | none => none
    | some (.error e, row) => some (.error e, row)
    | some (.ok a, row) => f a row

/-- Ends in a fault. -/
def refuse (e : Fault) : Positional α := fun row => some (.error e, row)

def ofExcept (x : Except Fault α) : Positional α := fun row => some (x, row)

def look (f : List Bytes → Option α) : Positional α := fun row =>
  (f row).map fun a => (.ok a, row)

def edit (f : List Bytes → Option (List Bytes)) : Positional Unit := fun row =>
  (f row).map fun row => (.ok (), row)

def take (f : List Bytes → Option (α × List Bytes)) : Positional α := fun row =>
  (f row).map fun p => (.ok p.1, p.2)

/-- A value that may be out of range. -/
def inRange (x : Option α) : Positional α := look fun _ => x

def len : Positional Nat := look fun row => some row.length

/-- The position so many items below the end. -/
def back (depth : Nat) : Positional Nat := look fun row => Ranged.minus? row.length depth

def peek (depth : Nat) : Positional Bytes := do
  let i ← back depth
  look (·[i]?)

def pop : Positional Bytes := take fun row => row.getLast?.map (·, row.dropLast)

/-- Puts items on top, the last of them topmost. -/
def extend (items : List Bytes) : Positional Unit := edit fun row => some (row ++ items)

def push (a : Bytes) : Positional Unit := extend [a]

/-- Refuses for want of operands. -/
def require (name : String) (required : Nat) : Positional Unit := do
  if (← len) < required then refuse (.missingOperands name required)

/-! ### What they come to -/

variable {row : List Bytes}

@[simp] lemma bind_apply (x : Positional α) (f : α → Positional β) (row : List Bytes) :
    (x >>= f) row =
      match x row with
      | none => none
      | some (.error e, row) => some (.error e, row)
      | some (.ok a, row) => f a row := rfl

@[simp] lemma pure_apply (a : α) (row : List Bytes) :
    (pure a : Positional α) row = some (.ok a, row) := rfl

@[simp] lemma refuse_apply (e : Fault) (row : List Bytes) :
    (refuse e : Positional α) row = some (.error e, row) := rfl

@[simp] lemma ofExcept_apply (x : Except Fault α) (row : List Bytes) :
    ofExcept x row = some (x, row) := rfl

@[simp] lemma look_apply (f : List Bytes → Option α) (row : List Bytes) :
    look f row = (f row).map fun a => (.ok a, row) := rfl

@[simp] lemma edit_apply (f : List Bytes → Option (List Bytes)) (row : List Bytes) :
    edit f row = (f row).map fun row => (.ok (), row) := rfl

@[simp] lemma take_apply (f : List Bytes → Option (α × List Bytes)) (row : List Bytes) :
    take f row = (f row).map fun p => (.ok p.1, p.2) := rfl

@[simp] lemma inRange_some (a : α) (row : List Bytes) :
    inRange (some a) row = some (.ok a, row) := rfl

@[simp] lemma len_apply (row : List Bytes) : len row = some (.ok row.length, row) := rfl

@[simp] lemma extend_apply (items row : List Bytes) :
    extend items row = some (.ok (), row ++ items) := rfl

@[simp] lemma push_apply (a : Bytes) (row : List Bytes) :
    push a row = some (.ok (), row ++ [a]) := rfl

@[simp] lemma pop_append (row : List Bytes) (a : Bytes) :
    pop (row ++ [a]) = some (.ok a, row) := by
  simp [pop]

@[simp] lemma pop_append_two (row : List Bytes) (b a : Bytes) :
    pop (row ++ [b, a]) = some (.ok a, row ++ [b]) := by
  rw [← pop_append, List.append_assoc, List.cons_append, List.nil_append]

@[simp] lemma pop_append_three (row : List Bytes) (c b a : Bytes) :
    pop (row ++ [c, b, a]) = some (.ok a, row ++ [c, b]) := by
  rw [← pop_append, List.append_assoc, List.cons_append, List.cons_append, List.nil_append]

lemma require_of_le {name : String} {n : Nat} (h : n ≤ row.length) :
    require name n row = some (.ok (), row) := by
  simp [require, Nat.not_lt.2 h]

lemma require_of_lt {name : String} {n : Nat} (h : row.length < n) :
    require name n row = some (.error (.missingOperands name n), row) := by
  simp [require, h]

lemma back_append {ys : List Bytes} {depth : Nat} (h : depth ≤ ys.length) :
    back depth (row ++ ys) = some (.ok (row.length + (ys.length - depth)), row ++ ys) := by
  have hle : depth ≤ (row ++ ys).length := by
    rw [List.length_append]
    omega
  rw [back, look_apply, Ranged.minus?_of_le hle, List.length_append, Nat.add_sub_assoc h]
  rfl

lemma peek_append {ys : List Bytes} {depth : Nat} {a : Bytes} (h : depth ≤ ys.length)
    (ha : ys[ys.length - depth]? = some a) : peek depth (row ++ ys) = some (.ok a, row ++ ys) := by
  rw [peek, bind_apply, back_append h]
  simp only [look_apply, Ranged.getElem?_append_add, ha, Option.map_some]

/-- **Below the bottom** there is no item, not even a fault: an opcode has a result only if it asks
for its operands first. -/
lemma peek_eq_none {depth : Nat} (h : row.length < depth) : peek depth row = none := by
  simp [peek, back, Ranged.minus?, Nat.not_le.2 h]

end Positional

end CoinScript
