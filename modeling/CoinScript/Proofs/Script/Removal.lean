import CoinScript.Proofs.Script.Parts
import CoinScript.SignatureHash

/-!
Removing instructions from a script.

A removal cuts the bytes of some instructions out of a script. What is left are proper
instructions one after the other, which read as themselves, so removing is filtering what the
instructions say. Removals can thus be made in any order, none need be made twice, and what a push
carries is never taken for an instruction.
-/

namespace CoinScript

/-- What an instruction says, wherever it stands. -/
def Instruction.content (i : Instruction) : Opcode × Option Bytes := (i.opcode, i.data?)

/-- What can be removed from a script: an opcode above the pushes, or the shortest pushes of some
data. -/
inductive Removal
  | opcode (op : Opcode) (above : Opcode.push4 < op)
  | push (data : Bytes)

namespace Removal

variable {r r' : Removal} {s : Script} {is : List Instruction}

def apply : Removal → Script → Except Fault Script
  | opcode op _, s => s.removeOpcode op
  | push data, s => s.removePush data

/-- Whether instructions that say this are removed. -/
def cuts : Removal → Opcode × Option Bytes → Bool
  | opcode op _, c => c.1 == op
  | push data, c => c == (Opcode.canonicalPush data.length, some data)

def keeps (r : Removal) (i : Instruction) : Bool := !r.cuts i.content

lemma placeless_keeps (r : Removal) : Script.Placeless r.keeps := fun _ _ => rfl

/-! ### What is left -/

lemma apply_eq (r : Removal) (h : s.instructions = .ok is) :
    r.apply s = .ok ⟨(is.filter r.keeps).flatMap Instruction.encode⟩ := by
  cases r with
  | opcode op above =>
    have hkeep : is.filter (·.opcode ≠ op) = is.filter (opcode op above).keeps := by
      refine List.filter_congr fun i _ => ?_
      simp [keeps, cuts, Instruction.content, beq_eq_decide]
    rw [apply, Script.removeOpcode, Script.filter_of_instructions h,
      Script.filter_opcode h (UInt8.not_le.2 above), hkeep]
  | push data => exact Script.filter_of_instructions h _

lemma apply_eq_self (r : Removal) (h : s.instructions = .ok is)
    (hnone : ∀ i ∈ is, r.cuts i.content = false) : r.apply s = .ok s := by
  have hall : is.filter r.keeps = is :=
    List.filter_eq_self.2 fun i hi => by rw [keeps, hnone i hi, Bool.not_false]
  rw [r.apply_eq h, hall, ← Script.bytes_of_instructions h]

lemma apply_eq_error (r : Removal) {e : Fault} (h : s.instructions = .error e) :
    r.apply s = .error e := by
  cases r with
  | opcode op above =>
    rw [apply, Script.removeOpcode, Script.filter, h]
    rfl
  | push data =>
    rw [apply, Script.removePush, Script.filter, h]
    rfl

lemma isProper_filter (h : s.instructions = .ok is) (keep : Instruction → Bool) :
    ∀ i ∈ is.filter keep, i.IsProper :=
  fun i hi => Script.isProper_of_instructions h i (List.mem_filter.1 hi).1

lemma instructions_filter (h : s.instructions = .ok is) (keep : Instruction → Bool) :
    Script.instructions ⟨(is.filter keep).flatMap Instruction.encode⟩ =
      .ok (Script.relaid 0 (is.filter keep)) :=
  Script.instructions_flatMap (isProper_filter h keep)

lemma apply_bind (h : s.instructions = .ok is) : r.apply s >>= r'.apply =
    .ok ⟨(is.filter fun i => r'.keeps i && r.keeps i).flatMap Instruction.encode⟩ := by
  rw [r.apply_eq h, Except.ok_bind, r'.apply_eq (instructions_filter h r.keeps),
    List.flatMap_def, Script.map_filter_relaid r'.placeless_keeps fun _ _ => rfl,
    ← List.flatMap_def, List.filter_filter]

lemma apply_comm (r r' : Removal) (s : Script) :
    r.apply s >>= r'.apply = r'.apply s >>= r.apply := by
  cases h : s.instructions with
  | error e => rw [r.apply_eq_error h, r'.apply_eq_error h, Except.error_bind, Except.error_bind]
  | ok is =>
    rw [apply_bind h, apply_bind h]
    simp only [Bool.and_comm]

lemma apply_idem (r : Removal) (s : Script) : r.apply s >>= r.apply = r.apply s := by
  cases h : s.instructions with
  | error e => rw [r.apply_eq_error h, Except.error_bind]
  | ok is =>
    rw [apply_bind h, r.apply_eq h]
    simp only [Bool.and_self]

lemma eq_push_of_cuts {i : Instruction} {data : Bytes} (hi : i.IsProper)
    (hdata : i.data? = some data) (hcuts : r.cuts i.content = true) : r = push data := by
  cases r with
  | opcode op above =>
    have hop : i.opcode = op := eq_of_beq hcuts
    have hle : i.opcode ≤ Opcode.push4 := hi.isSome_iff.1 (by rw [hdata, Option.isSome_some])
    rw [hop] at hle
    exact absurd hle (UInt8.not_le.2 above)
  | push data' =>
    have hcontent : i.content = (Opcode.canonicalPush data'.length, some data') := eq_of_beq hcuts
    have hsome : some data = some data' := hdata.symm.trans (congrArg Prod.snd hcontent)
    rw [Option.some.inj hsome]

/-! ### Signatures -/

lemma strip_perm {sigs sigs' : List Bytes} (h : s.instructions = .ok is)
    (hperm : sigs.Perm sigs') : Signature.strip s sigs = Signature.strip s sigs' := by
  have hproper := Script.isProper_of_instructions h
  have hscript : s = ⟨is.flatMap Instruction.encode⟩ :=
    congrArg Script.mk (Script.bytes_of_instructions h)
  have hleft : Signature.unsigned sigs is = Signature.unsigned sigs' is :=
    List.filter_congr fun i _ => by rw [hperm.any_eq]
  rw [hscript, Signature.strip_flatMap sigs hproper, Signature.strip_flatMap sigs' hproper, hleft]

lemma digest_congr {code code' : Script}
    (h : code.removeOpcode Opcode.codeSeparator = code'.removeOpcode Opcode.codeSeparator)
    (tx : Transaction) (index : Nat) (t : SighashType) :
    SignatureHash.digest code tx index t = SignatureHash.digest code' tx index t := by
  have hcopy : SignatureHash.signedCopy code tx index t =
      SignatureHash.signedCopy code' tx index t := by
    unfold SignatureHash.signedCopy
    rw [h]
  unfold SignatureHash.digest SignatureHash.preimage
  rw [hcopy]

end Removal

namespace Script

variable {s : Script} {is : List Instruction}

/-- **Removing** an opcode or the shortest pushes of some data from a script filters what its
instructions say, and copies the bytes of those that are left. Nothing that a push carries is
taken for an instruction. A removal need not be made twice, any two can be made in either order,
and so can those of signatures. A signature hash does not see whether the separators are removed
from its code. -/
theorem removal_filters (h : s.instructions = .ok is) :
    (∀ r : Removal, ∃ s' is', r.apply s = .ok s' ∧ s'.instructions = .ok is' ∧
      is'.map Instruction.content =
        (is.map Instruction.content).filter (fun c => !r.cuts c) ∧
      s'.bytes = (is.filter fun i => !r.cuts i.content).flatMap
        (fun i => (s.bytes.drop i.offset).take i.size) ∧
      (∀ i ∈ is, ∀ data, i.data? = some data → r.cuts i.content = true → r = .push data) ∧
      ((∀ i ∈ is, r.cuts i.content = false) → s' = s) ∧
      r.apply s' = .ok s') ∧
    (∀ r r' : Removal, r.apply s >>= r'.apply = r'.apply s >>= r.apply) ∧
    (∀ sigs sigs' : List Bytes, sigs.Perm sigs' →
      Signature.strip s sigs = Signature.strip s sigs') ∧
    ∃ code, s.removeOpcode Opcode.codeSeparator = .ok code ∧ ∀ tx index t,
      SignatureHash.digest code tx index t = SignatureHash.digest s tx index t := by
  refine ⟨fun r => ?_, fun r r' => r.apply_comm r' s, fun sigs sigs' hperm =>
    Removal.strip_perm h hperm, ?_⟩
  · have happly := r.apply_eq h
    have hidem := r.apply_idem s
    rw [happly, Except.ok_bind] at hidem
    refine ⟨_, _, happly, Removal.instructions_filter h r.keeps, ?_, ?_, ?_, fun hnone => ?_,
      hidem⟩
    · rw [map_relaid fun _ _ => rfl, List.filter_map]
      rfl
    · rw [List.flatMap_def, List.flatMap_def]
      refine congrArg List.flatten (List.map_congr_left fun i hi => ?_)
      exact (slice_eq_encode h (List.mem_filter.1 hi).1).symm
    · intro i hi data hdata hcuts
      exact Removal.eq_push_of_cuts (isProper_of_instructions h i hi) hdata hcuts
    · exact Except.ok.inj (happly.symm.trans (r.apply_eq_self h hnone))
  · -- taking the separators out twice is taking them out once, and the digest does it anyway
    have habove : Opcode.push4 < Opcode.codeSeparator := by decide
    have happly := (Removal.opcode Opcode.codeSeparator habove).apply_eq h
    have hidem := (Removal.opcode Opcode.codeSeparator habove).apply_idem s
    rw [happly, Except.ok_bind] at hidem
    exact ⟨_, happly, Removal.digest_congr (hidem.trans happly.symm)⟩

theorem removal_filters_lookalikes :
    let s : Script := ⟨[0xab, 0x02, 0xab, 0xab, 0x01, 0x05, 0x02, 0x01, 0x05, 0xab, 0x76]⟩
    let unseparated : Script := ⟨[0x02, 0xab, 0xab, 0x01, 0x05, 0x02, 0x01, 0x05, 0x76]⟩
    s.instructions = .ok [⟨0xab, none, 0⟩, ⟨0x02, some [0xab, 0xab], 1⟩, ⟨0x01, some [0x05], 4⟩,
      ⟨0x02, some [0x01, 0x05], 6⟩, ⟨0xab, none, 9⟩, ⟨0x76, none, 10⟩] ∧
    s.removeOpcode Opcode.codeSeparator = .ok unseparated ∧
    s.removePush [0x05] >>= (·.removeOpcode Opcode.codeSeparator) =
      .ok ⟨[0x02, 0xab, 0xab, 0x02, 0x01, 0x05, 0x76]⟩ ∧
    ∀ tx index t,
      SignatureHash.digest unseparated tx index t = SignatureHash.digest s tx index t := by
  have his : instructions
      ⟨[0xab, 0x02, 0xab, 0xab, 0x01, 0x05, 0x02, 0x01, 0x05, 0xab, 0x76]⟩ =
      .ok [⟨0xab, none, 0⟩, ⟨0x02, some [0xab, 0xab], 1⟩, ⟨0x01, some [0x05], 4⟩,
        ⟨0x02, some [0x01, 0x05], 6⟩, ⟨0xab, none, 9⟩, ⟨0x76, none, 10⟩] := rfl
  have habove : Opcode.push4 < Opcode.codeSeparator := by decide
  obtain ⟨-, hcomm, -, code, hcode, hdigest⟩ := removal_filters his
  cases hcode
  exact ⟨his, rfl, hcomm (.push [0x05]) (.opcode _ habove), hdigest⟩

end Script

end CoinScript
