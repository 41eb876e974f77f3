import Mathlib.Data.Nat.Bitwise
import Mathlib.Tactic.Common
import CoinScript.Proofs.Except
import CoinScript.TimeLock

/-!
The rules of time locks.

A handler goes through its checks one after another and ends well exactly if all of them hold, so
each rule is a conjunction over what the transaction and the chain report. A relative lock is held
against a sequence as one number, in which the bit for the measure stands above the bits for the
length. Where the measures are the same, that compares the lengths.
-/

namespace CoinScript.TimeLock

variable {s : Setting} {tx : Transaction} {name : String} {stack : List Bytes} {n seq : Nat}

/-! ### Bits of a relative lock -/

lemma and_typeBit (n : Nat) : n &&& typeBit = (n.testBit 22).toNat * 2 ^ 22 :=
  Nat.and_two_pow n 22

lemma and_valueMask (n : Nat) : n &&& valueMask = n % 2 ^ 16 :=
  Nat.and_two_pow_sub_one_eq_mod n 16

lemma and_disableBit_eq_zero_iff : n &&& disableBit = 0 ↔ n.testBit 31 = false := by
  have hbit : n &&& disableBit = (n.testBit 31).toNat * 2 ^ 31 := Nat.and_two_pow n 31
  rw [hbit]
  cases n.testBit 31 <;> simp

lemma and_typeBit_inj : n &&& typeBit = seq &&& typeBit ↔ n.testBit 22 = seq.testBit 22 := by
  rw [and_typeBit, and_typeBit]
  cases n.testBit 22 <;> cases seq.testBit 22 <;> simp

lemma lockBits_eq (n : Nat) : lockBits n = 2 ^ 22 * (n.testBit 22).toNat + n % 2 ^ 16 := by
  have hmeasure : n % 0x100000000 &&& typeBit = 2 ^ 22 * (n.testBit 22).toNat := by
    have hbit : (n % 0x100000000).testBit 22 = n.testBit 22 := by
      have hlow := Nat.testBit_mod_two_pow n 32 22
      simpa using hlow
    rw [and_typeBit, hbit, Nat.mul_comm]
  have hlength : n % 0x100000000 &&& valueMask = n % 2 ^ 16 := by
    rw [and_valueMask]
    omega
  have hlt : n % 2 ^ 16 < 2 ^ 22 := by omega
  calc lockBits n
      = (n % 0x100000000 &&& typeBit) ||| (n % 0x100000000 &&& valueMask) :=
        Nat.and_or_distrib_left _ _ _
    _ = 2 ^ 22 * (n.testBit 22).toNat ||| n % 2 ^ 16 := by rw [hmeasure, hlength]
    _ = 2 ^ 22 * (n.testBit 22).toNat + n % 2 ^ 16 := (Nat.two_pow_add_eq_or_of_lt hlt _).symm

lemma lockBits_and_typeBit (n : Nat) : lockBits n &&& typeBit = n &&& typeBit := by
  have hbit : (lockBits n).testBit 22 = n.testBit 22 := by
    rw [lockBits_eq, Nat.testBit_two_pow_mul_add _ (by omega)]
    cases n.testBit 22 <;> rfl
  rw [and_typeBit_inj, hbit]

lemma lockBits_le_iff (h : n &&& typeBit = seq &&& typeBit) :
    lockBits n ≤ lockBits seq ↔ n &&& valueMask ≤ seq &&& valueMask := by
  rw [lockBits_eq, lockBits_eq, and_typeBit_inj.1 h, and_valueMask, and_valueMask]
  omega

/-! ### Operands -/

/-- The number that the top item stands for, in any encoding of at most five bytes. -/
def Operand (stack : List Bytes) (n : Nat) : Prop :=
  ∃ top below, stack = top :: below ∧ top.length ≤ 5 ∧ Number.decode top = n

lemma operand_eq_ok : operand name stack = .ok n ↔ Operand stack n := by
  unfold Operand
  cases stack with
  | nil => simp [operand]
  | cons top below =>
    have hshape : (∃ top' below', top :: below = top' :: below' ∧ top'.length ≤ 5 ∧
        Number.decode top' = n) ↔ top.length ≤ 5 ∧ Number.decode top = n := by
      constructor
      · rintro ⟨_, _, hcons, htop⟩
        cases hcons
        exact htop
      · exact fun htop => ⟨top, below, rfl, htop⟩
    rw [hshape]
    by_cases hlong : 5 < top.length
    · simp [operand, hlong, Nat.not_le.2 hlong]
    · by_cases hneg : Number.decode top < 0
      · simp [operand, hlong, hneg]
        omega
      · simp [operand, hlong, hneg]
        omega

lemma Operand.unique {n' : Nat} (h : Operand stack n) (h' : Operand stack n') :
    n = n' := by
  obtain ⟨top, below, rfl, -, hn⟩ := h
  obtain ⟨top', below', hcons, -, hn'⟩ := h'
  cases hcons
  omega

lemma Operand.exists_iff (h : Operand stack n) {P : Nat → Prop} :
    (∃ n, Operand stack n ∧ P n) ↔ P n := by
  constructor
  · rintro ⟨n', hn', hP⟩
    rwa [h.unique hn']
  · exact fun hP => ⟨n, h, hP⟩

/-! ### The rules -/

lemma requireReached_eq_ok {lockTime : Nat} {chain? : Option ChainState} :
    requireReached lockTime chain? = .ok () ↔ ∀ c ∈ chain?, lockTime ≤ reached c lockTime := by
  cases chain? with
  | none => simp [requireReached]
  | some c =>
    simp only [requireReached, Option.mem_some_iff, forall_eq']
    split
    · rename_i hlt
      exact iff_of_false (by simp) (Nat.not_le.2 hlt)
    · rename_i hle
      exact iff_of_true rfl (Nat.not_lt.1 hle)

lemma transaction_eq_ok : s.transaction name = .ok tx ↔ tx ∈ s.tx? := by
  unfold Setting.transaction
  cases s.tx? <;> simp

/-- **An absolute lock** as the transaction and the chain report their integers. -/
lemma exists_checkLockTime_iff (hflag : s.flags.has Flags.checkLockTime = true) :
    (∃ log, checkLockTime s name stack = .ok log) ↔
      ∃ n, operand name stack = .ok n ∧ ∃ tx ∈ s.tx?,
        ((n : Int) < threshold ↔ (tx.lockTime : Int) < threshold) ∧ n ≤ tx.lockTime ∧
        ∃ seq, tx.inputSequence s.input = .ok seq ∧ seq ≠ Transaction.finalSequence ∧
          ∀ c ∈ s.chain?, tx.lockTime ≤ reached c tx.lockTime := by
  have hon : (!s.flags.has Flags.checkLockTime) ≠ true := by simp [hflag]
  unfold checkLockTime
  rw [if_neg hon, Except.exists_bind_eq_ok]
  refine exists_congr fun n => and_congr_right fun _ => ?_
  rw [Except.exists_bind_eq_ok]
  refine exists_congr fun tx => and_congr transaction_eq_ok ?_
  rw [Except.exists_check_eq_ok, Except.exists_check_eq_ok, Except.exists_bind_eq_ok, not_ne_iff,
    eq_iff_iff, Nat.not_lt]
  refine and_congr_right fun _ => and_congr_right fun _ => exists_congr fun seq =>
    and_congr_right fun _ => ?_
  rw [Except.exists_check_eq_ok, Except.exists_bind_eq_ok, ← requireReached_eq_ok]
  refine and_congr_right fun _ => ?_
  constructor
  · rintro ⟨_, hreached, -⟩
    exact hreached
  · exact fun hreached => ⟨(), hreached, _, rfl⟩

lemma checkLockTime_passes (hflag : s.flags.has Flags.checkLockTime = true)
    (htx : s.tx? = some tx) : (∃ log, checkLockTime s name stack = .ok log) ↔
      ∃ n, operand name stack = .ok n ∧ ((n : Int) < threshold ↔ (tx.lockTime : Int) < threshold) ∧
        n ≤ tx.lockTime ∧ ∃ seq, tx.inputSequence s.input = .ok seq ∧
          seq ≠ Transaction.finalSequence ∧
          ∀ c ∈ s.chain?, tx.lockTime ≤ reached c tx.lockTime := by
  rw [exists_checkLockTime_iff hflag]
  simp only [htx, Option.mem_some_iff, exists_eq_left']

/-- **A relative lock** as the transaction reports its integers. -/
lemma exists_checkSequence_iff (hflag : s.flags.has Flags.checkSequence = true) :
    (∃ log, checkSequence s name stack = .ok log) ↔
      ∃ n, operand name stack = .ok n ∧ (n &&& disableBit = 0 → ∃ tx ∈ s.tx?, 2 ≤ tx.version ∧
        ∃ seq, tx.inputSequence s.input = .ok seq ∧ seq &&& disableBit = 0 ∧
          n &&& typeBit = seq &&& typeBit ∧ n &&& valueMask ≤ seq &&& valueMask) := by
  have hon : (!s.flags.has Flags.checkSequence) ≠ true := by simp [hflag]
  unfold checkSequence
  rw [if_neg hon, Except.exists_bind_eq_ok]
  refine exists_congr fun n => and_congr_right fun _ => ?_
  by_cases hn : n &&& disableBit = 0
  · rw [forall_prop_of_true hn, if_neg (not_not.2 hn), Except.exists_bind_eq_ok]
    refine exists_congr fun tx => and_congr transaction_eq_ok ?_
    rw [Except.exists_check_eq_ok, Except.exists_bind_eq_ok, Int.not_lt]
    refine and_congr_right fun _ => exists_congr fun seq => and_congr_right fun _ => ?_
    rw [Except.exists_check_eq_ok, Except.exists_check_eq_ok, Except.exists_check_eq_ok, not_ne_iff,
      not_ne_iff, Nat.not_lt, lockBits_and_typeBit, lockBits_and_typeBit]
    refine and_congr_right fun _ => and_congr_right fun htype => ?_
    -- where the type bits agree, only the lengths are left to compare
    rw [lockBits_le_iff htype]
    exact and_iff_left ⟨_, rfl⟩
  · rw [if_pos hn]
    exact iff_of_true ⟨_, rfl⟩ fun h => absurd h hn

lemma checkSequence_passes (hflag : s.flags.has Flags.checkSequence = true)
    (htx : s.tx? = some tx) : (∃ log, checkSequence s name stack = .ok log) ↔
      ∃ n, operand name stack = .ok n ∧ (n &&& disableBit = 0 → 2 ≤ tx.version ∧
        ∃ seq, tx.inputSequence s.input = .ok seq ∧ seq &&& disableBit = 0 ∧
          n &&& typeBit = seq &&& typeBit ∧ n &&& valueMask ≤ seq &&& valueMask) := by
  rw [exists_checkSequence_iff hflag]
  simp only [htx, Option.mem_some_iff, exists_eq_left']

end CoinScript.TimeLock
