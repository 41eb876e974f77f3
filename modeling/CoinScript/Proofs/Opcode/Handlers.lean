import Mathlib.Tactic.Common
import CoinScript.Opcode.Table

/-!
Tables without functions of the host.

What a function of the host does is not known, so where that matters a table is asked to have none.
The table of a network is such a table, and it stays one through renames, disabled opcodes and the
handlers that a configuration can name.
-/

namespace CoinScript.OpcodeTable

/-- Every handler of the table is one that a configuration can name. -/
def Registered (t : OpcodeTable) : Prop :=
  ∀ op handler, t.handler? op = some handler → ∃ h : NamedHandler, handler = h

variable {t : OpcodeTable}

lemma registered_standard : standard.Registered := nofun

lemma Registered.register (ht : t.Registered) (op : Opcode) (h : NamedHandler) :
    (t.register op h).Registered := by
  intro op' handler hhandler
  unfold handler? OpcodeTable.register at hhandler
  rw [List.lookup_cons] at hhandler
  split at hhandler
  · cases hhandler
    exact ⟨h, rfl⟩
  · exact ht op' handler hhandler

lemma Registered.congr {u : OpcodeTable} (ht : t.Registered) (h : u.overrides = t.overrides) :
    u.Registered := by
  unfold Registered handler?
  rw [h]
  exact ht

lemma registered_timeLocked : timeLocked.Registered :=
  (registered_standard.register _ _).register _ _

end CoinScript.OpcodeTable
