import CoinScript.Transaction

/-!
What a script can see of the outside: the transaction that spends, the input it is run for,
the rules in force and, if known, the state of the chain.
-/

namespace CoinScript

/-- The rules in force, one to a bit. -/
abbrev Flags := UInt32

namespace Flags

/-- Redeem scripts of script hash locks are run. -/
def payToScriptHash : Flags := 0x001

/-- The extra item that a multiple signature check takes must be empty. -/
def nullDummy : Flags := 0x010

def checkLockTime : Flags := 0x200
def checkSequence : Flags := 0x400

/-- The rules in force where nothing else is said. -/
def standard : Flags := payToScriptHash ||| nullDummy ||| checkLockTime ||| checkSequence

def has (f rule : Flags) : Bool := f &&& rule != 0

end Flags

/-- Height and time of the chain's last block. -/
structure ChainState where
  height : Nat
  time : Nat

/-- An input of a transaction and the rules and chain it is judged by. -/
structure Spend where
  tx : Transaction
  input : Nat
  flags : Flags := Flags.standard
  chain? : Option ChainState := none

/-- A spend as a script sees it, which may be run without any. -/
structure Setting where
  tx? : Option Transaction := none
  input : Nat := 0
  flags : Flags := Flags.standard
  chain? : Option ChainState := none

def Spend.setting (s : Spend) : Setting := ⟨some s.tx, s.input, s.flags, s.chain?⟩

def Setting.transaction (s : Setting) (name : String) : Except Fault Transaction :=
  match s.tx? with
  | some tx => .ok tx
  | none => .error (.missingTransaction name)

end CoinScript
