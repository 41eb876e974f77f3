import Mathlib.Tactic.Common
import CoinScript.Opcode

/-!
The families of push opcodes, as ranges of numbers.
-/

namespace CoinScript.Opcode

variable {op : Opcode}

lemma le_pushDirectMax_iff : op ≤ pushDirectMax ↔ op.toNat ≤ 0x4b := UInt8.le_iff_toNat_le

lemma pushDirectMax_lt_iff : pushDirectMax < op ↔ 0x4b < op.toNat := UInt8.lt_iff_toNat_lt

lemma le_push4_iff : op ≤ push4 ↔ op.toNat ≤ 0x4e := UInt8.le_iff_toNat_le

lemma push4_lt_iff : push4 < op ↔ 0x4e < op.toNat := UInt8.lt_iff_toNat_lt

lemma isPushData_iff : op.isPushData = true ↔ 0x4c ≤ op.toNat ∧ op.toNat ≤ 0x4e := by
  simp only [isPushData, Bool.or_eq_true, beq_iff_eq, ← UInt8.toNat_inj]
  change ((op.toNat = 0x4c ∨ op.toNat = 0x4d) ∨ op.toNat = 0x4e) ↔ _
  omega

lemma lengthWidth_le (op : Opcode) : op.lengthWidth ≤ 4 := by
  unfold lengthWidth
  split_ifs <;> omega

lemma lengthWidth_direct (h : op ≤ pushDirectMax) : op.lengthWidth = 0 := by
  rw [le_pushDirectMax_iff] at h
  unfold lengthWidth
  simp only [← UInt8.toNat_inj]
  change (if op.toNat = 0x4c then 1 else if op.toNat = 0x4d then 2 else
    if op.toNat = 0x4e then 4 else 0) = 0
  split_ifs <;> omega

lemma canonicalPush_toNat (h : op ≤ pushDirectMax) : canonicalPush op.toNat = op := by
  rw [le_pushDirectMax_iff] at h
  unfold canonicalPush
  rw [if_pos (by omega), UInt8.ofNat_toNat]

end CoinScript.Opcode
