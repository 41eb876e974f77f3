import CoinScript.Proofs.Script.Building
import CoinScript.Proofs.Script.Removal

/-!
The script that locks an output to a key, and the one that unlocks it with a signature.

Both push what is short enough to be pushed directly, so their instructions are known whatever
the key and the signature.
-/

namespace CoinScript

namespace Script

def payToKey (key : Bytes) : Script := (empty.pushData key).pushOpcode 0xac

variable {s : Script} {data key : Bytes} {is : List Instruction}

lemma instructions_singlePush (h : data.length ≤ 75) : (empty.pushData data).instructions =
    .ok [⟨Opcode.canonicalPush data.length, some data, 0⟩] := by
  have hempty : empty.instructions = .ok [] := rfl
  exact instructions_pushData hempty (Nat.le_trans h (by decide))

lemma instructions_payToKey (h : key.length ≤ 75) : (payToKey key).instructions =
    .ok [⟨Opcode.canonicalPush key.length, some key, 0⟩,
      ⟨0xac, none, Instruction.size ⟨Opcode.canonicalPush key.length, some key, 0⟩⟩] := by
  have hop : Opcode.push4 < 0xac := by decide
  have hlen : (empty.pushData key).bytes.length = (Instruction.ofData key 0).size :=
    (Instruction.ofData key 0).length_encode
  have hboth := instructions_pushOpcode (instructions_singlePush h) (.inr hop)
  rw [hlen] at hboth
  exact hboth

lemma length_payToKey (h : key.length = 33) : (payToKey key).bytes.length = 35 := by
  have hwidth : (Opcode.canonicalPush 33).lengthWidth = 0 := by decide
  simp [payToKey, pushOpcode, pushData, empty, Instruction.encodePush, h, hwidth]

lemma removePush_eq_self (h : s.instructions = .ok is) (hne : ∀ i ∈ is, i.data? ≠ some data) :
    s.removePush data = .ok s := by
  refine (Removal.push data).apply_eq_self h fun i hi => ?_
  exact beq_eq_false_iff_ne.2 fun hcontent => hne i hi (congrArg Prod.snd hcontent)

end Script

end CoinScript
