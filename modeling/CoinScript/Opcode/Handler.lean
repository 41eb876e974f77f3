import CoinScript.Spend

/-!
What may run in place of an opcode's own effect: a handler that a configuration can name, or a
function of the program that runs the scripts.
-/

namespace CoinScript

/-- A handler that a configuration can name. -/
inductive NamedHandler where
  /-- Holds the transaction's lock time against the top stack item. -/
  | checkLockTime
  /-- Holds the input's sequence against the top stack item. -/
  | checkSequence
  | nop
  deriving DecidableEq

namespace NamedHandler

def all : List NamedHandler := [checkLockTime, checkSequence, nop]

def name : NamedHandler → String
  | checkLockTime => "check_lock_time_verify"
  | checkSequence => "check_sequence_verify"
  | nop => "nop"

end NamedHandler

/-- What a function of the host is given: the opcode that it stands for and its mnemonic, the
setting, and both stacks with their tops first. -/
structure HostCall where
  opcode : Opcode
  name : String
  setting : Setting
  stack : List Bytes
  altstack : List Bytes

/-- A function of the program that runs the scripts, which goes by what it is given alone. It
answers with a log line or refuses, and leaves both stacks as it likes. -/
abbrev HostFunction := HostCall → Except Fault String × List Bytes × List Bytes

/-- A replacement for an opcode's own effect. -/
inductive Handler where
  | named (h : NamedHandler)
  | host (name : String) (f : HostFunction)

instance : Coe NamedHandler Handler := ⟨.named⟩

namespace Handler

def name : Handler → String
  | named h => h.name
  | host name _ => name

def ofName? (s : String) : Option NamedHandler :=
  NamedHandler.all.find? (·.name = s)

end Handler

end CoinScript
