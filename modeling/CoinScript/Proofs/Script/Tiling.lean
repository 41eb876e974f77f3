import CoinScript.Proofs.Except
import CoinScript.Proofs.Opcode.Families
import CoinScript.Script

/-!
Instructions tile their script.

The first instruction stands at the start and each of the others where the one before it ends.
Every instruction is proper, in that it carries data if its opcode says so and as much as that can
say, and is written as the bytes that it was read from. So taking out all instructions of an opcode
is taking out their bytes. Where bytes do not tile, the fault is one of parsing.
-/

namespace CoinScript

namespace Instruction

variable {offset n : Nat} {op : Opcode} {rest : Bytes} {i : Instruction} {e : Fault}

@[simp] lemma length_encode (i : Instruction) : i.encode.length = i.size := by
  unfold encode size encodePush
  cases i.data? with
  | none => rfl
  | some data =>
    simp only [List.length_append, List.length_cons, Bytes.length_ofNatLE]
    omega

lemma size_pos (i : Instruction) : 0 < i.size := by
  unfold size
  cases i.data? with
  | none => exact Nat.one_pos
  | some data => simp only; omega

lemma readData_eq_ok (h : readData op offset n rest = .ok i) :
    i = ⟨op, some (rest.take n), offset⟩ ∧ (rest.take n).length = n := by
  have hle : (rest.take n).length ≤ n := List.length_take_le n rest
  unfold readData at h
  by_cases hlt : (rest.take n).length < n
  · rw [if_pos hlt] at h
    cases h
  · rw [if_neg hlt] at h
    cases h
    exact ⟨rfl, by omega⟩

/-- Whether bytes can read as an instruction: it carries data exactly where its opcode says so,
and as much as the opcode or the length bytes behind it can say. -/
def IsProper (i : Instruction) : Prop :=
  match i.data? with
  | none => Opcode.push4 < i.opcode
  | some data =>
    (i.opcode ≤ Opcode.pushDirectMax ∧ data.length = i.opcode.toNat) ∨
      (i.opcode.isPushData = true ∧ data.length < Nat.pow 256 i.opcode.lengthWidth)

lemma isProper_mk_none : (mk op none offset).IsProper ↔ Opcode.push4 < op := Iff.rfl

lemma isProper_mk_some {data : Bytes} : (mk op (some data) offset).IsProper ↔
    (op ≤ Opcode.pushDirectMax ∧ data.length = op.toNat) ∨
      (op.isPushData = true ∧ data.length < Nat.pow 256 op.lengthWidth) := Iff.rfl

lemma IsProper.isSome_iff (h : i.IsProper) : i.data?.isSome = true ↔ i.opcode ≤ Opcode.push4 := by
  rcases i with ⟨opcode, - | data, offset⟩
  · rw [isProper_mk_none] at h
    exact iff_of_false Bool.false_ne_true (UInt8.not_le.2 h)
  · refine iff_of_true rfl (Opcode.le_push4_iff.2 ?_)
    rcases isProper_mk_some.1 h with ⟨hdirect, -⟩ | ⟨hpush, -⟩
    · exact Nat.le_trans (Opcode.le_pushDirectMax_iff.1 hdirect) (by decide)
    · exact (Opcode.isPushData_iff.1 hpush).2

/-- **An instruction that is read** stands where it was read, is proper, and is written as the
bytes it was read from. -/
lemma read_eq_ok (h : read offset op rest = .ok i) :
    i.offset = offset ∧ i.opcode = op ∧ i.IsProper ∧ ∃ tail, op :: rest = i.encode ++ tail := by
  unfold read at h
  by_cases hdirect : op ≤ Opcode.pushDirectMax
  · rw [if_pos hdirect] at h
    obtain ⟨rfl, hlen⟩ := readData_eq_ok h
    refine ⟨rfl, rfl, isProper_mk_some.2 (.inl ⟨hdirect, hlen⟩), rest.drop op.toNat, ?_⟩
    change _ = op :: Bytes.ofNatLE op.lengthWidth _ ++ rest.take op.toNat ++ rest.drop op.toNat
    rw [Opcode.lengthWidth_direct hdirect, Bytes.ofNatLE, List.cons_append, List.cons_append,
      List.nil_append, List.take_append_drop]
  · rw [if_neg hdirect] at h
    by_cases hpush : op.isPushData = true
    · simp only [hpush, if_true] at h
      set digits := rest.take op.lengthWidth with hdigits
      by_cases hlt : digits.length < op.lengthWidth
      · simp [hlt] at h
      · rw [if_neg hlt] at h
        obtain ⟨rfl, hlen⟩ := readData_eq_ok h
        have hle : digits.length ≤ op.lengthWidth := List.length_take_le _ rest
        -- all digits of the length were there, so they encode it again
        have hwidth : op.lengthWidth = digits.length := by omega
        have hbound := Bytes.toNatLE_lt digits
        rw [← hlen, ← hwidth] at hbound
        refine ⟨rfl, rfl, isProper_mk_some.2 (.inr ⟨hpush, hbound⟩),
          (rest.drop op.lengthWidth).drop (Bytes.toNatLE digits), ?_⟩
        change _ = op :: Bytes.ofNatLE op.lengthWidth (List.take _ _).length ++ _ ++ _
        rw [hlen, hwidth, Bytes.ofNatLE_toNatLE, ← hwidth, hdigits, List.cons_append,
          List.cons_append, List.append_assoc, List.take_append_drop, List.take_append_drop]
    · simp only [hpush, if_false, Bool.false_eq_true] at h
      cases h
      rw [Opcode.le_pushDirectMax_iff] at hdirect
      rw [Opcode.isPushData_iff] at hpush
      refine ⟨rfl, rfl, isProper_mk_none.2 (Opcode.push4_lt_iff.2 ?_), rest, rfl⟩
      omega

lemma read_eq_error (h : read offset op rest = .error e) : ∃ fault, e = .parse fault := by
  have hdata {n : Nat} {rest : Bytes} (h : readData op offset n rest = .error e) :
      ∃ fault, e = .parse fault := by
    unfold readData at h
    simp only at h
    split at h
    · cases h
      exact ⟨_, rfl⟩
    · cases h
  unfold read at h
  simp only at h
  split at h
  · exact hdata h
  · split at h
    · split at h
      · cases h
        exact ⟨_, rfl⟩
      · exact hdata h
    · cases h

end Instruction

namespace Script

variable {offset : Nat} {bytes : Bytes} {is : List Instruction} {e : Fault}

/-! ### Reading on -/

lemma instructionsFrom_skip (skip offset : Nat) (bytes : Bytes) :
    instructionsFrom skip offset bytes =
      instructionsFrom 0 (offset + skip) (bytes.drop skip) := by
  induction bytes generalizing skip offset with
  | nil => rw [List.drop_nil, instructionsFrom, instructionsFrom]
  | cons b rest ih =>
    cases skip with
    | zero => rfl
    | succ skip =>
      rw [instructionsFrom, ih, List.drop_succ_cons]
      congr 1
      omega

lemma instructionsFrom_cons {op : Opcode} {rest : Bytes} {i : Instruction}
    (h : Instruction.read offset op rest = .ok i) :
    instructionsFrom 0 offset (op :: rest) = (i :: ·) <$>
      instructionsFrom 0 (offset + i.size) (rest.drop (i.size - 1)) := by
  have hsize := i.size_pos
  rw [instructionsFrom, h]
  change (do let is ← instructionsFrom (i.size - 1) (offset + 1) rest; return i :: is) = _
  rw [instructionsFrom_skip, show offset + 1 + (i.size - 1) = offset + i.size by omega]
  rfl

lemma instructionsFrom_eq_error {skip : Nat} (h : instructionsFrom skip offset bytes = .error e) :
    ∃ fault, e = .parse fault := by
  induction bytes generalizing skip offset with
  | nil =>
    rw [instructionsFrom] at h
    cases h
  | cons op rest ih =>
    cases skip with
    | succ skip => exact ih h
    | zero =>
      rw [instructionsFrom] at h
      rcases Except.bind_eq_error.1 h with hread | ⟨i, -, h⟩
      · exact Instruction.read_eq_error hread
      · rcases Except.bind_eq_error.1 h with hrest | ⟨is, -, h⟩
        · exact ih hrest
        · cases h

/-! ### Tiles -/

/-- Instructions that tile bytes of which the first stands at an offset. -/
inductive Tiles : (offset : Nat) → Bytes → List Instruction → Prop
  | nil {offset : Nat} : Tiles offset [] []
  | cons {i : Instruction} {rest : Bytes} {is : List Instruction}
      (data : i.data?.isSome = true ↔ i.opcode ≤ Opcode.push4)
      (tiles : Tiles (i.offset + i.size) rest is) :
      Tiles i.offset (i.encode ++ rest) (i :: is)

/-- **The instructions of bytes tile them.** -/
theorem tiles_of_instructionsFrom (h : instructionsFrom 0 offset bytes = .ok is) :
    Tiles offset bytes is := by
  -- on the number of bytes that are left
  induction hlen : bytes.length using Nat.strongRecOn generalizing offset bytes is with
  | ind n ih =>
    cases bytes with
    | nil =>
      rw [instructionsFrom] at h
      cases h
      exact .nil
    | cons op rest =>
      cases hread : Instruction.read offset op rest with
      | error e =>
        rw [instructionsFrom, hread] at h
        cases h
      | ok i =>
        obtain ⟨rfl, rfl, hproper, tail, htail⟩ := Instruction.read_eq_ok hread
        have hsize := i.size_pos
        have hrest : rest.drop (i.size - 1) = tail := by
          have hdrop : (i.opcode :: rest).drop i.size = tail := by
            rw [htail, List.drop_left' i.length_encode]
          rwa [← Nat.sub_add_cancel hsize, List.drop_succ_cons] at hdrop
        rw [instructionsFrom_cons hread, hrest] at h
        cases his : instructionsFrom 0 (i.offset + i.size) tail with
        | error e =>
          rw [his] at h
          cases h
        | ok is' =>
          rw [his] at h
          cases h
          have hlt : tail.length < n := by
            rw [← hlen, htail, List.length_append, i.length_encode]
            omega
          rw [htail]
          exact .cons hproper.isSome_iff (ih _ hlt his rfl)

lemma Tiles.slice (h : Tiles offset bytes is) {i : Instruction} (hi : i ∈ is) :
    offset ≤ i.offset ∧ (bytes.drop (i.offset - offset)).take i.size = i.encode := by
  induction h with
  | nil => cases hi
  | @cons j rest is _ _ ih =>
    rcases List.mem_cons.1 hi with rfl | hi
    · refine ⟨Nat.le_refl _, ?_⟩
      rw [Nat.sub_self, List.drop_zero, List.take_left' i.length_encode]
    · obtain ⟨hle, hslice⟩ := ih hi
      have hsub : i.offset - j.offset = j.encode.length + (i.offset - (j.offset + j.size)) := by
        rw [j.length_encode]
        omega
      refine ⟨by omega, ?_⟩
      rwa [hsub, List.drop_append, List.drop_of_length_le (by omega), List.nil_append,
        Nat.add_sub_cancel_left]

lemma Tiles.data (h : Tiles offset bytes is) {i : Instruction} (hi : i ∈ is) :
    i.data?.isSome = true ↔ i.opcode ≤ Opcode.push4 := by
  induction h with
  | nil => cases hi
  | cons data _ ih =>
    rcases List.mem_cons.1 hi with rfl | hi
    · exact data
    · exact ih hi

/-! ### Removing -/

lemma slice_eq_encode {s : Script} (h : s.instructions = .ok is) {i : Instruction} (hi : i ∈ is) :
    (s.bytes.drop i.offset).take i.size = i.encode := by
  obtain ⟨-, hslice⟩ := (tiles_of_instructionsFrom h).slice hi
  rwa [Nat.sub_zero] at hslice

lemma filter_of_instructions {s : Script} (h : s.instructions = .ok is)
    (keep : Instruction → Bool) :
    s.filter keep = .ok ⟨(is.filter keep).flatMap Instruction.encode⟩ := by
  have hslices : ∀ i ∈ is.filter keep, (s.bytes.drop i.offset).take i.size = i.encode :=
    fun i hi => slice_eq_encode h (List.mem_filter.1 hi).1
  unfold filter
  rw [h, Except.ok_bind, List.flatMap_def, List.flatMap_def, List.map_congr_left hslices]
  rfl

/-- The bytes of a script but for those of some opcode's instructions. -/
def bytesWithout (s : Script) (op : Opcode) (is : List Instruction) : Bytes :=
  (is.filter (·.opcode ≠ op)).flatMap fun i => (s.bytes.drop i.offset).take i.size

lemma filter_opcode {s : Script} (h : s.instructions = .ok is) {op : Opcode}
    (hop : ¬ op ≤ Opcode.push4) :
    is.filter (fun i => i.opcode != op || i.data?.isSome) = is.filter (·.opcode ≠ op) := by
  refine List.filter_congr fun i hi => ?_
  by_cases ho : i.opcode = op
  · have hdata : i.data?.isSome = false := by
      rw [← Bool.not_eq_true, (tiles_of_instructionsFrom h).data hi, ho]
      exact hop
    simp [ho, hdata]
  · simp [ho]

theorem removeOpcode_eq (s : Script) {op : Opcode} (hop : ¬ op ≤ Opcode.push4) :
    s.removeOpcode op = (fun is => ⟨s.bytesWithout op is⟩) <$> s.instructions := by
  unfold removeOpcode filter
  cases his : s.instructions with
  | error e => rfl
  | ok is =>
    rw [Except.ok_bind, Except.map_ok, filter_opcode his hop]
    rfl

end Script

end CoinScript
