import CoinScript.Proofs.Script.Tiling

/-!
Instructions read back from the bytes they are written as.

A proper instruction is read back from its bytes whatever follows them. So bytes read as
instructions exactly if these are proper, stand each where the one before it ends, and are written
as the bytes.
-/

namespace CoinScript

namespace Instruction

variable {offset : Nat} {op : Opcode} {rest tail : Bytes} {i : Instruction}

lemma encode_mk_none : (mk op none offset).encode = [op] := rfl

lemma encode_mk_some {data : Bytes} : (mk op (some data) offset).encode =
    op :: (Bytes.ofNatLE op.lengthWidth data.length ++ data) := rfl

lemma readData_append (data : Bytes) (tail : Bytes) :
    readData op offset data.length (data ++ tail) = .ok ⟨op, some data, offset⟩ := by
  unfold readData
  rw [List.take_left, if_neg (Nat.lt_irrefl _)]

lemma read_of_isProper (h : i.IsProper) (hbytes : i.encode ++ tail = op :: rest) :
    read i.offset op rest = .ok i := by
  rcases i with ⟨opcode, data?, offset⟩
  cases data? with
  | none =>
    rw [isProper_mk_none, Opcode.push4_lt_iff] at h
    rw [encode_mk_none] at hbytes
    obtain ⟨rfl, rfl⟩ := List.cons.inj hbytes
    have hdirect : ¬ opcode ≤ Opcode.pushDirectMax := by
      rw [Opcode.le_pushDirectMax_iff]
      omega
    have hpush : ¬ opcode.isPushData = true := by
      rw [Opcode.isPushData_iff]
      omega
    unfold read
    rw [if_neg hdirect, if_neg hpush]
  | some data =>
    rw [encode_mk_some] at hbytes
    obtain ⟨rfl, hrest⟩ := List.cons.inj hbytes
    rw [List.append_eq, List.append_assoc] at hrest
    rcases isProper_mk_some.1 h with ⟨hdirect, hlen⟩ | ⟨hpush, hlt⟩
    · rw [Opcode.lengthWidth_direct hdirect, Bytes.ofNatLE, List.nil_append] at hrest
      unfold read
      rw [if_pos hdirect, ← hrest, ← hlen]
      exact readData_append data tail
    · have hdirect : ¬ opcode ≤ Opcode.pushDirectMax := by
        rw [Opcode.isPushData_iff] at hpush
        rw [Opcode.le_pushDirectMax_iff]
        omega
      have hdigits : rest.take opcode.lengthWidth =
          Bytes.ofNatLE opcode.lengthWidth data.length := by
        rw [← hrest, List.take_left' (Bytes.length_ofNatLE _ _)]
      have hdrop : rest.drop opcode.lengthWidth = data ++ tail := by
        rw [← hrest, List.drop_left' (Bytes.length_ofNatLE _ _)]
      unfold read
      simp only [if_neg hdirect, hpush, if_true, hdigits, hdrop, Bytes.length_ofNatLE,
        Bytes.toNatLE_ofNatLE, Nat.mod_eq_of_lt hlt, Nat.lt_irrefl, if_false]
      exact readData_append data tail

end Instruction

namespace Script

variable {skip offset : Nat} {bytes : Bytes} {is : List Instruction} {s : Script}

/-- Instructions of which the first stands at an offset and each of the others where the one
before it ends. -/
def Laid : (offset : Nat) → List Instruction → Prop
  | _, [] => True
  | offset, i :: is => i.offset = offset ∧ Laid (offset + i.size) is

lemma isProper_of_instructionsFrom (h : instructionsFrom skip offset bytes = .ok is) :
    ∀ i ∈ is, i.IsProper := by
  induction bytes generalizing skip offset is with
  | nil =>
    rw [instructionsFrom] at h
    cases h
    exact fun _ hi => (List.not_mem_nil hi).elim
  | cons op rest ih =>
    cases skip with
    | succ skip => exact ih h
    | zero =>
      rw [instructionsFrom] at h
      obtain ⟨i, hread, h⟩ := Except.bind_eq_ok.1 h
      obtain ⟨is', hrest, h⟩ := Except.bind_eq_ok.1 h
      cases h
      intro j hj
      rcases List.mem_cons.1 hj with rfl | hj
      · exact (Instruction.read_eq_ok hread).2.2.1
      · exact ih hrest j hj

lemma Tiles.laid (h : Tiles offset bytes is) :
    bytes = is.flatMap Instruction.encode ∧ Laid offset is := by
  induction h with
  | nil => exact ⟨rfl, trivial⟩
  | cons _ _ ih =>
    obtain ⟨hbytes, hlaid⟩ := ih
    rw [hbytes]
    exact ⟨rfl, rfl, hlaid⟩

lemma instructionsFrom_flatMap (hlaid : Laid offset is) (hproper : ∀ i ∈ is, i.IsProper) :
    instructionsFrom 0 offset (is.flatMap Instruction.encode) = .ok is := by
  induction is generalizing offset with
  | nil => rfl
  | cons i is ih =>
    obtain ⟨rfl, hlaid⟩ := hlaid
    have hrest := ih hlaid fun j hj => hproper j (List.mem_cons_of_mem i hj)
    have hsize := i.size_pos
    cases hbytes : i.encode ++ is.flatMap Instruction.encode with
    | nil =>
      have hlen := congrArg List.length hbytes
      rw [List.length_append, i.length_encode, List.length_nil] at hlen
      omega
    | cons op rest =>
      have hread := Instruction.read_of_isProper (hproper i List.mem_cons_self) hbytes
      -- the opcode has been taken off already, hence one byte less
      have hdrop : rest.drop (i.size - 1) = is.flatMap Instruction.encode := by
        have hdrop : (op :: rest).drop i.size = is.flatMap Instruction.encode := by
          rw [← hbytes, List.drop_left' i.length_encode]
        rwa [← Nat.sub_add_cancel hsize, List.drop_succ_cons] at hdrop
      rw [List.flatMap_cons, hbytes, instructionsFrom_cons hread, hdrop, hrest]
      rfl

/-- **The instructions of a script** are the proper ones that it is written as. -/
theorem instructions_eq_ok_iff : s.instructions = .ok is ↔
    s.bytes = is.flatMap Instruction.encode ∧ Laid 0 is ∧ ∀ i ∈ is, i.IsProper := by
  constructor
  · intro h
    obtain ⟨hbytes, hlaid⟩ := (tiles_of_instructionsFrom h).laid
    exact ⟨hbytes, hlaid, isProper_of_instructionsFrom h⟩
  · rintro ⟨hbytes, hlaid, hproper⟩
    rw [instructions, hbytes]
    exact instructionsFrom_flatMap hlaid hproper

lemma bytes_of_instructions (h : s.instructions = .ok is) :
    s.bytes = is.flatMap Instruction.encode := (instructions_eq_ok_iff.1 h).1

lemma isProper_of_instructions (h : s.instructions = .ok is) : ∀ i ∈ is, i.IsProper :=
  (instructions_eq_ok_iff.1 h).2.2

lemma ofBytes_eq_ok {b : Bytes} :
    ofBytes b = .ok s ↔ s.bytes = b ∧ ∃ is, s.instructions = .ok is := by
  unfold ofBytes
  rw [Except.bind_eq_ok]
  constructor
  · rintro ⟨is, his, h⟩
    cases h
    exact ⟨rfl, is, his⟩
  · rintro ⟨rfl, is, his⟩
    exact ⟨is, his, rfl⟩

end Script

end CoinScript
