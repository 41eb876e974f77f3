import CoinScript.Number
import CoinScript.Opcode.Handler
import CoinScript.Spend

/-!
The handlers that hold a lock on the stack against the transaction.

Such a handler reads the top stack item and leaves both stacks as they are; it answers with a log
line or refuses. Where its rule is not in force it does nothing.
-/

namespace CoinScript.TimeLock

/-- Lock times below this are heights, the others are times. -/
def threshold : Int := 500000000

/-- The bit that turns a relative lock off. -/
def disableBit : Nat := 0x80000000
/-- The bit that says whether a relative lock is in time or in blocks. -/
def typeBit : Nat := 0x400000
/-- The bits that say how long a relative lock is. -/
def valueMask : Nat := 0xffff

/-- The bits of a relative lock that are compared, of the low four bytes of a number. -/
def lockBits (n : Nat) : Nat := n % 0x100000000 &&& (typeBit ||| valueMask)

/-- The top item as a number that is not negative, of at most five bytes. -/
def operand (name : String) : List Bytes → Except Fault Nat
  | [] => .error (.missingOperands name 1)
  | top :: _ =>
    if 5 < top.length then .error (.stackOperation (.operandTooLong name top.length))
    else
      let v := Number.decode top
      if v < 0 then .error (.lockTime (.negativeOperand name)) else .ok v.toNat

/-- The chain's height or time, whichever a lock time is measured in. -/
def reached (c : ChainState) (lockTime : Nat) : Nat :=
  if lockTime < threshold then c.height else c.time

def requireReached (lockTime : Nat) : Option ChainState → Except Fault Unit
  | none => .ok ()
  | some c =>
    if reached c lockTime < lockTime then
      .error (.lockTime (.notReached lockTime (threshold ≤ lockTime) (reached c lockTime)))
    else .ok ()

/-- The transaction must be locked at least as long as the operand says, in the same measure,
its input must not be final, and its own lock time must have come. -/
def checkLockTime (s : Setting) (name : String) (stack : List Bytes) : Except Fault String := do
  if !s.flags.has Flags.checkLockTime then return s!"{name}: not enforced, treated as NOP"
  let n ← operand name stack
  let tx ← s.transaction name
  if (n < threshold) ≠ (tx.lockTime < threshold) then
    throw (.lockTime (.typesDiffer n tx.lockTime))
  if tx.lockTime < n then throw (.lockTime (.exceedsLockTime n tx.lockTime))
  if (← tx.inputSequence s.input) = Transaction.finalSequence then
    throw (.lockTime (.finalSequence s.input))
  requireReached tx.lockTime s.chain?
  return s!"{name}: lock time {n} satisfied"

/-- The input must be locked at least as long relative to the output it spends as the operand
says, in the same measure. An operand with the disable bit asks for nothing. -/
def checkSequence (s : Setting) (name : String) (stack : List Bytes) : Except Fault String := do
  if !s.flags.has Flags.checkSequence then return s!"{name}: not enforced, treated as NOP"
  let n ← operand name stack
  if n &&& disableBit ≠ 0 then return s!"{name}: relative lock disabled"
  let tx ← s.transaction name
  if tx.version < 2 then throw (.lockTime (.version tx.version))
  let seq ← tx.inputSequence s.input
  if seq &&& disableBit ≠ 0 then throw (.lockTime (.relativeDisabled s.input))
  if lockBits n &&& typeBit ≠ lockBits seq &&& typeBit then
    throw (.lockTime .relativeTypesDiffer)
  if lockBits seq < lockBits n then
    throw (.lockTime (.relativeExceeds (lockBits n &&& valueMask) (lockBits seq &&& valueMask)))
  return s!"{name}: sequence {n % 4294967296} satisfied"

end TimeLock

/-- Runs a handler in place of the opcode called `name`. -/
def NamedHandler.run (h : NamedHandler) (s : Setting) (name : String) (stack : List Bytes) :
    Except Fault String :=
  match h with
  | .checkLockTime => TimeLock.checkLockTime s name stack
  | .checkSequence => TimeLock.checkSequence s name stack
  | .nop => .ok s!"{name}: no operation"

end CoinScript
