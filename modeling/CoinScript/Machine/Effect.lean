import CoinScript.Fault
import CoinScript.Number

/-!
Effects on the stack.

The stack is a list with its top first. An effect answers with a log line or a fault, and in
either case with the stack as it leaves it. Most opcodes look at a fixed number of items only:
they reply with what is to stand in their place.
-/

namespace CoinScript

/-- Items, the top first. -/
abbrev Stack := List Bytes

/-- A log line or a fault, and the items left on top. -/
abbrev Reply := Except Fault String × List Bytes

/-- What an opcode does to the stack. -/
abbrev Effect := Stack → Reply

def shownBytes (b : Bytes) : String :=
  if b.isEmpty then "(empty)" else "0x" ++ Hex.encode b

namespace Effect

/-- Refuses for want of operands and leaves the stack alone. -/
def missing (name : String) (required : Nat) : Effect :=
  fun s => (.error (.missingOperands name required), s)

def one (name : String) (f : Bytes → Reply) : Effect
  | a :: s => ((f a).1, (f a).2 ++ s)
  | s => missing name 1 s

/-- An effect on the top two items; the top comes first. -/
def two (name : String) (f : Bytes → Bytes → Reply) : Effect
  | a :: b :: s => ((f a b).1, (f a b).2 ++ s)
  | s => missing name 2 s

def three (name : String) (f : Bytes → Bytes → Bytes → Reply) : Effect
  | a :: b :: c :: s => ((f a b c).1, (f a b c).2 ++ s)
  | s => missing name 3 s

end Effect

namespace Reply

/-- A single item and the log line that shows it. -/
def item (name : String) (b : Bytes) : Reply :=
  (.ok s!"{name}: {shownBytes b}", [b])

/-- A fault of the operands, and what it leaves of them. -/
def stackFault (fault : StackFault) (left : List Bytes) : Reply :=
  (.error (.stackOperation fault), left)

/-- The outcome of a test: a truth value on the stack or, where the opcode verifies, nothing
on success and a fault on failure. -/
def verdict (name : String) (verify : Bool) (value : Bool) (log : String) : Reply :=
  if verify then
    if value then (.ok s!"{name}: passed", []) else (.error (.verifyFailed (.falseValue name)), [])
  else (.ok log, [Number.ofBool value])

end Reply

end CoinScript
