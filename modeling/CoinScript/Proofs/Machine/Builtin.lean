import Mathlib.Tactic.Common
import CoinScript.Machine
import CoinScript.Opcode.Names

/-!
Which opcodes have which effects, what a multiple check takes off a stack, and what of a machine an
effect leaves alone.

Numbers are pushed by opcodes among the pushes, and all other effects belong to opcodes above them.
Only a multiple check counts operations of its own, and only a separator moves the start of the
script code.
-/

namespace CoinScript

namespace Builtin

variable {op : Opcode} {b : Builtin}

lemma ofOpcode?_cases (h : ofOpcode? op = some b) :
    isNop op.toNat = true ∨ (∃ n, b = .number n) ∨ named? op.toNat = some b := by
  unfold ofOpcode? smallNumber? at h
  by_cases hnop : isNop op.toNat = true
  · exact .inl hnop
  · rw [if_neg hnop] at h
    by_cases hsmall : 0x51 ≤ op.toNat ∧ op.toNat ≤ 0x60
    · rw [if_pos hsmall, Option.some_or, Option.some.injEq] at h
      exact .inr (.inl ⟨_, h.symm⟩)
    · rw [if_neg hsmall, Option.none_or] at h
      exact .inr (.inr h)

lemma op16_lt (h : ofOpcode? op = some b) (hb : ∀ n, b ≠ .number n) : Opcode.op16 < op := by
  have hlt : 0x60 < op.toNat := by
    rcases ofOpcode?_cases h with hnop | ⟨n, rfl⟩ | hnamed
    · simp only [isNop, Bool.or_eq_true, beq_iff_eq, Bool.and_eq_true, decide_eq_true_eq] at hnop
      omega
    · exact absurd rfl (hb n)
    · generalize op.toNat = n at hnamed
      unfold named? at hnamed
      split at hnamed <;> cases hnamed <;> simp at hb ⊢
  exact UInt8.lt_iff_toNat_lt.2 hlt

lemma natAbs_le_of_number {n : Int} (h : ofOpcode? op = some (.number n)) : n.natAbs ≤ 16 := by
  unfold ofOpcode? smallNumber? at h
  by_cases hnop : isNop op.toNat = true
  · rw [if_pos hnop] at h
    cases h
  · rw [if_neg hnop] at h
    by_cases hsmall : 0x51 ≤ op.toNat ∧ op.toNat ≤ 0x60
    · rw [if_pos hsmall, Option.some_or, Option.some.injEq, number.injEq] at h
      omega
    · rw [if_neg hsmall, Option.none_or] at h
      unfold named? at h
      split at h <;> cases h
      decide

/-- Whether an effect splices, works on bits or multiplies, divides or shifts numbers. -/
def isWide : Builtin → Bool
  | concat | substring | keep _ | invert | bitwise _ | shift _ => true
  | unary .double | unary .halve => true
  | binary .mul | binary .div | binary .mod => true
  | _ => false

lemma mem_standardDisabled (h : ofOpcode? op = some b) (hb : b.isWide = true) :
    op ∈ Opcode.standardDisabled := by
  have hmem : op.toNat ∈ Opcode.standardDisabled.map UInt8.toNat := by
    rcases ofOpcode?_cases h with hnop | ⟨n, rfl⟩ | hnamed
    · rw [ofOpcode?, if_pos hnop] at h
      cases h
      cases hb
    · cases hb
    · generalize op.toNat = n at hnamed
      unfold named? at hnamed
      split at hnamed <;> cases hnamed <;>
        first
        | (cases hb; done)
        | simp [Opcode.standardDisabled]
  obtain ⟨op', hmem', heq⟩ := List.mem_map.1 hmem
  rwa [← UInt8.toNat_inj.1 heq]

end Builtin

/-! ### Operands of a multiple check -/

lemma Signature.count?_le {b : Bytes} {most n : Nat} (h : count? b most = some n) : n ≤ most := by
  unfold count? at h
  rcases hv : Number.decodeBounded? b with - | v
  · simp [hv] at h
  · simp only [hv, Option.ite_none_right_eq_some, Option.some.injEq] at h
    omega

/-- **The operands of a multiple check** are keys, the number of signatures, the signatures and a
dummy, from the top. -/
lemma MultisigOperands.take_eq_ok {name : String} {keyCount : Nat} {s : Stack}
    {ops : MultisigOperands} :
    take name keyCount s = .ok ops ↔
      ∃ count, s = ops.keys ++ count :: (ops.signatures ++ ops.dummy :: ops.below) ∧
        ops.keys.length = keyCount ∧
        Signature.count? count keyCount = some ops.signatures.length := by
  constructor
  · intro h
    unfold take at h
    rcases hkeys : s.drop keyCount with - | ⟨count, rest⟩
    · simp [hkeys] at h
    · rcases hcount : Signature.count? count keyCount with - | n
      · simp [hkeys, hcount] at h
      · rcases hsigs : rest.drop n with - | ⟨dummy, below⟩
        · simp [hkeys, hcount, hsigs] at h
        · simp only [hkeys, hcount, hsigs, Except.ok.injEq] at h
          subst h
          -- something is left behind the keys and behind the signatures, so none of them are
          -- missing
          have hlen := congrArg List.length hkeys
          have hlen' := congrArg List.length hsigs
          simp only [List.length_drop, List.length_cons] at hlen hlen'
          have hn : (rest.take n).length = n := by
            rw [List.length_take]
            omega
          refine ⟨count, ?_, ?_, ?_⟩
          · rw [← hsigs, List.take_append_drop, ← hkeys, List.take_append_drop]
          · rw [List.length_take]
            omega
          · rw [hn, hcount]
  · rintro ⟨count, rfl, rfl, hcount⟩
    unfold take
    simp [hcount]

namespace Machine

variable {m : Machine} {env : Env} {name : String}

/-- Another machine has the same count of operations and the same start of the script code. -/
def Keeps (m m' : Machine) : Prop := m'.opCount = m.opCount ∧ m'.codeStart = m.codeStart

lemma keeps_branch (m : Machine) (name : String) (negated : Bool) :
    m.Keeps (m.branch name negated).2 := by
  unfold branch
  by_cases hexec : m.executing = true
  · rw [if_pos hexec]
    cases m.stack <;> exact ⟨rfl, rfl⟩
  · rw [if_neg hexec]
    exact ⟨rfl, rfl⟩

lemma keeps_otherwise (m : Machine) (name : String) : m.Keeps (m.otherwise name).2 := by
  unfold Machine.otherwise
  cases m.conditions <;> exact ⟨rfl, rfl⟩

lemma keeps_endBranch (m : Machine) (name : String) : m.Keeps (m.endBranch name).2 := by
  unfold Machine.endBranch
  cases m.conditions <;> exact ⟨rfl, rfl⟩

lemma keeps_toAltstack (m : Machine) (name : String) : m.Keeps (m.toAltstack name).2 := by
  unfold Machine.toAltstack
  cases m.stack <;> exact ⟨rfl, rfl⟩

lemma keeps_fromAltstack (m : Machine) (name : String) : m.Keeps (m.fromAltstack name).2 := by
  unfold Machine.fromAltstack
  cases m.altstack <;> exact ⟨rfl, rfl⟩

lemma keeps_runBuiltin (m : Machine) (env : Env) (name : String) (offset : Nat) {b : Builtin}
    (hseparator : b ≠ .codeSeparator) (hmultisig : ∀ verify, b ≠ .checkMultisig verify) :
    m.Keeps (m.runBuiltin env name offset b).2 := by
  cases b with
  | branch negated => exact keeps_branch m name negated
  | otherwise => exact keeps_otherwise m name
  | endBranch => exact keeps_endBranch m name
  | toAltstack => exact keeps_toAltstack m name
  | fromAltstack => exact keeps_fromAltstack m name
  | codeSeparator => exact absurd rfl hseparator
  | checkMultisig verify => exact absurd rfl (hmultisig verify)
  | _ => exact ⟨rfl, rfl⟩

lemma codeStart_checkMultisig (m : Machine) (env : Env) (name : String) (verify : Bool) :
    (m.checkMultisig env name verify).2.codeStart = m.codeStart := by
  unfold checkMultisig countOps
  split
  · rfl
  · split
    · rfl
    · split
      next hops =>
        split at hops <;> cases hops
        rfl
      next hops =>
        split at hops <;> cases hops
        rfl

lemma keeps_push (m : Machine) (data : Bytes) : m.Keeps (m.push data).2 := by
  unfold push
  by_cases hsize : maxItemSize < data.length
  · rw [if_pos hsize]
    exact ⟨rfl, rfl⟩
  · rw [if_neg hsize]
    cases m.executing <;> exact ⟨rfl, rfl⟩

end Machine

end CoinScript
