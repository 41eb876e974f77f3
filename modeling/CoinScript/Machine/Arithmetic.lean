import CoinScript.Machine.Effect

/-!
Opcodes on numbers.

Operands are read in any encoding and results written in the shortest. Division and remainder
truncate towards zero, shifts and halving round down.
-/

namespace CoinScript

/-- Operations on one number. -/
inductive UnaryOp where
  | inc
  | dec
  | double
  | halve
  | negate
  | abs
  | isZero
  | isNonzero
  deriving DecidableEq

namespace UnaryOp

def eval : UnaryOp → Int → Int
  | inc, n => n + 1
  | dec, n => n - 1
  | double, n => 2 * n
  | halve, n => n.fdiv 2
  | negate, n => -n
  | abs, n => n.natAbs
  | isZero, n => if n = 0 then 1 else 0
  | isNonzero, n => if n = 0 then 0 else 1

def effect (op : UnaryOp) (name : String) : Effect :=
  Effect.one name fun a =>
    let n := Number.decode a
    let r := op.eval n
    (.ok s!"{name}: {n} -> {r}", [Number.encode r])

end UnaryOp

/-- Operations on two numbers. -/
inductive BinaryOp where
  | add
  | sub
  | mul
  | div
  | mod
  | boolAnd
  | boolOr
  | equal
  | notEqual
  | less
  | greater
  | lessOrEqual
  | greaterOrEqual
  | min
  | max
  deriving DecidableEq

namespace BinaryOp

def flag (b : Bool) : Int := if b then 1 else 0

/-- The result for operands in the order in which they were pushed; none for a division by
zero. -/
def eval? : BinaryOp → Int → Int → Option Int
  | add, a, b => some (a + b)
  | sub, a, b => some (a - b)
  | mul, a, b => some (a * b)
  | div, a, b => if b = 0 then none else some (a.tdiv b)
  | mod, a, b => if b = 0 then none else some (a.tmod b)
  | boolAnd, a, b => some (flag (a ≠ 0 ∧ b ≠ 0))
  | boolOr, a, b => some (flag (a ≠ 0 ∨ b ≠ 0))
  | equal, a, b => some (flag (a = b))
  | notEqual, a, b => some (flag (a ≠ b))
  | less, a, b => some (flag (a < b))
  | greater, a, b => some (flag (b < a))
  | lessOrEqual, a, b => some (flag (a ≤ b))
  | greaterOrEqual, a, b => some (flag (b ≤ a))
  | min, a, b => some (Min.min a b)
  | max, a, b => some (Max.max a b)

def effect (op : BinaryOp) (name : String) : Effect :=
  Effect.two name fun second first =>
    let b := Number.decode second
    let a := Number.decode first
    match op.eval? a b with
    | none => Reply.stackFault (.byZero name) []
    | some r => (.ok s!"{name}: {a}, {b} -> {r}", [Number.encode r])

end BinaryOp

namespace Effect

def numEqualVerify (name : String) : Effect :=
  two name fun b a => Reply.verdict name true (Number.decode a == Number.decode b) ""

def within (name : String) : Effect :=
  three name fun greatest least number =>
    let max := Number.decode greatest
    let min := Number.decode least
    let x := Number.decode number
    let inside : Bool := min ≤ x && x < max
    (.ok s!"{name}: {x} in [{min}, {max}) is {inside}", [Number.ofBool inside])

/-- An operand that is a length, an offset or a number of bits. -/
def index? (b : Bytes) : Option Nat :=
  match Number.decodeBounded? b with
  | some n => if 0 ≤ n then some n.toNat else none
  | none => none

/-- The farthest shift, in bits. -/
def maxShift : Nat := 8 * 520

/-- Shifts a number by bits; to the right rounds down. -/
def shift (name : String) (left : Bool) : Effect :=
  two name fun bits number =>
    match index? bits with
    | none => Reply.stackFault (.operandOutOfRange name) [bits, number]
    | some k =>
      if maxShift < k then Reply.stackFault (.shiftTooFar name k) [number]
      else
        let n := Number.decode number
        let r := if left then n * (Nat.pow 2 k : Nat) else n.fdiv (Nat.pow 2 k : Nat)
        (.ok s!"{name}: {n} by {k} -> {r}", [Number.encode r])

end Effect

end CoinScript
