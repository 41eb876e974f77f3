import CoinScript.Proofs.Number
import CoinScript.Proofs.Script.Parts

/-!
Building scripts, and reading what is built.

Bytes read as a script exactly if they are complete instructions one after the other, and there is
only one way to cut them so. What is appended to a script thus leaves its instructions as they are
and reads as one more. A push with the shortest length is the shortest script that reads so.
-/

namespace CoinScript

namespace Instruction

variable {op : Opcode} {b data : Bytes} {parts : List Bytes} {offset width : Nat} {i : Instruction}

/-- What an opcode on its own stands for. The one that pushes no bytes carries them. -/
def ofOpcode (op : Opcode) (offset : Nat) : Instruction :=
  ⟨op, if op = Opcode.push0 then some [] else none, offset⟩

def ofData (b : Bytes) (offset : Nat) : Instruction :=
  ⟨Opcode.canonicalPush b.length, some b, offset⟩

lemma encode_ofOpcode (op : Opcode) (offset : Nat) : (ofOpcode op offset).encode = [op] := by
  unfold ofOpcode
  by_cases hzero : op = Opcode.push0
  · subst hzero
    rfl
  · simp only [if_neg hzero]
    exact encode_mk_none

lemma size_ofOpcode (op : Opcode) (offset : Nat) : (ofOpcode op offset).size = 1 := by
  rw [← length_encode, encode_ofOpcode]
  rfl

/-- An opcode without a length behind it reads as itself unless it is a direct push. -/
lemma isProper_ofOpcode_iff (hpush : op.isPushData = false) :
    (ofOpcode op offset).IsProper ↔ op = Opcode.push0 ∨ Opcode.pushDirectMax < op := by
  rw [Bool.eq_false_iff, ne_eq, Opcode.isPushData_iff] at hpush
  unfold ofOpcode
  by_cases hzero : op = Opcode.push0
  · subst hzero
    simp only [if_true, true_or, iff_true, isProper_mk_some]
    exact .inl ⟨by decide, rfl⟩
  · rw [if_neg hzero, isProper_mk_none, Opcode.push4_lt_iff, or_iff_right hzero,
      Opcode.pushDirectMax_lt_iff]
    omega

lemma isProper_push_iff (hpush : op.isPushData = true) :
    (mk op (some b) offset).IsProper ↔ b.length < Nat.pow 256 op.lengthWidth := by
  have hdirect : ¬ op ≤ Opcode.pushDirectMax := by
    rw [Opcode.isPushData_iff] at hpush
    rw [Opcode.le_pushDirectMax_iff]
    omega
  rw [isProper_mk_some, or_iff_right fun h => hdirect h.1, and_iff_right hpush]

lemma isProper_ofData_iff : (ofData b offset).IsProper ↔ b.length < 256 ^ 4 := by
  unfold ofData Opcode.canonicalPush
  split_ifs with h75 h255 h65535
  · have hvalue : (UInt8.ofNat b.length).toNat = b.length := by
      rw [UInt8.toNat_ofNat']
      omega
    refine iff_of_true (isProper_mk_some.2 (.inl ⟨?_, hvalue.symm⟩)) (by omega)
    rw [Opcode.le_pushDirectMax_iff, hvalue]
    exact h75
  · rw [isProper_push_iff rfl]
    change b.length < 256 ↔ _
    omega
  · rw [isProper_push_iff rfl]
    change b.length < 65536 ↔ _
    omega
  · exact isProper_push_iff rfl

/-! ### Complete instructions -/

/-- The bytes of a whole instruction: an opcode that carries nothing, or one with as many bytes as
it says, or with the length and the bytes behind it. -/
inductive Complete : Bytes → Prop
  | plain {op : Opcode} : Opcode.push4 < op → Complete [op]
  | direct {op : Opcode} {data : Bytes} :
      op ≤ Opcode.pushDirectMax → data.length = op.toNat → Complete (op :: data)
  | counted {op : Opcode} {width : Nat} {data : Bytes} :
      (op, width) ∈ [(Opcode.push1, 1), (Opcode.push2, 2), (Opcode.push4, 4)] →
      data.length < Nat.pow 256 width → Complete (op :: (Bytes.ofNatLE width data.length ++ data))

lemma mem_counted_iff : (op, width) ∈ [(Opcode.push1, 1), (Opcode.push2, 2), (Opcode.push4, 4)] ↔
    op.isPushData = true ∧ width = op.lengthWidth := by
  have hopcodes : op.isPushData = true ↔
      op = Opcode.push1 ∨ op = Opcode.push2 ∨ op = Opcode.push4 := by
    simp [Opcode.isPushData, or_assoc]
  rw [hopcodes]
  simp only [List.mem_cons, Prod.mk.injEq, List.not_mem_nil, or_false]
  constructor
  · rintro (⟨rfl, rfl⟩ | ⟨rfl, rfl⟩ | ⟨rfl, rfl⟩) <;> decide
  · rintro ⟨rfl | rfl | rfl, rfl⟩ <;> decide

lemma complete_iff : Complete b ↔ ∃ i : Instruction, i.IsProper ∧ i.encode = b := by
  constructor
  · rintro (hop | ⟨hop, hlen⟩ | ⟨hmem, hlen⟩)
    · exact ⟨⟨_, none, 0⟩, isProper_mk_none.2 hop, rfl⟩
    · refine ⟨⟨_, some _, 0⟩, isProper_mk_some.2 (.inl ⟨hop, hlen⟩), ?_⟩
      rw [encode_mk_some, Opcode.lengthWidth_direct hop]
      rfl
    · obtain ⟨hpush, rfl⟩ := mem_counted_iff.1 hmem
      exact ⟨⟨_, some _, 0⟩, isProper_mk_some.2 (.inr ⟨hpush, hlen⟩), rfl⟩
  · rintro ⟨⟨op, - | data, offset⟩, hi, rfl⟩
    · exact .plain (isProper_mk_none.1 hi)
    · rcases isProper_mk_some.1 hi with ⟨hop, hlen⟩ | ⟨hpush, hlen⟩
      · rw [encode_mk_some, Opcode.lengthWidth_direct hop]
        exact .direct hop hlen
      · exact .counted (mem_counted_iff.2 ⟨hpush, rfl⟩) hlen

lemma exists_map_encode (h : ∀ part ∈ parts, Complete part) :
    ∃ is : List Instruction, (∀ i ∈ is, i.IsProper) ∧ is.map encode = parts := by
  induction parts with
  | nil => exact ⟨[], List.forall_mem_nil _, rfl⟩
  | cons part parts ih =>
    obtain ⟨hpart, hparts⟩ := List.forall_mem_cons.1 h
    obtain ⟨i, hi, rfl⟩ := complete_iff.1 hpart
    obtain ⟨is, his, rfl⟩ := ih hparts
    exact ⟨i :: is, List.forall_mem_cons.2 ⟨hi, his⟩, rfl⟩

/-! ### The shortest push -/

lemma lengthWidth_canonicalPush (n : Nat) : (Opcode.canonicalPush n).lengthWidth =
    if n ≤ 75 then 0 else if n ≤ 0xff then 1 else if n ≤ 0xffff then 2 else 4 := by
  unfold Opcode.canonicalPush
  split_ifs with h75 h255 h65535
  · refine Opcode.lengthWidth_direct (Opcode.le_pushDirectMax_iff.2 ?_)
    rw [UInt8.toNat_ofNat']
    omega
  · rfl
  · rfl
  · rfl

lemma IsProper.canonicalPush_or_lt (h : (mk op (some data) offset).IsProper) :
    op = Opcode.canonicalPush data.length ∨
      (Opcode.canonicalPush data.length).lengthWidth < op.lengthWidth := by
  rcases isProper_mk_some.1 h with ⟨hop, hlen⟩ | ⟨hpush, hlen⟩
  · rw [hlen, Opcode.canonicalPush_toNat hop]
    exact .inl rfl
  · obtain hmem := mem_counted_iff.2 ⟨hpush, rfl⟩
    simp only [List.mem_cons, Prod.mk.injEq, List.not_mem_nil, or_false] at hmem
    rw [lengthWidth_canonicalPush]
    unfold Opcode.canonicalPush
    rcases hmem with ⟨rfl, hwidth⟩ | ⟨rfl, hwidth⟩ | ⟨rfl, hwidth⟩
    all_goals
      rw [hwidth, Nat.pow_eq] at hlen
      rw [hwidth]
      split_ifs
      all_goals first | exact .inl rfl | exact .inr (by omega)

end Instruction

namespace Script

variable {s s' : Script} {is js : List Instruction} {i : Instruction} {offset : Nat} {op : Opcode}
  {b data : Bytes} {parts : List Bytes}

/-! ### Cutting bytes into instructions -/

/-- Instructions that cover bytes from the first to the last: each stands where the one before it
ends, and they are written as the bytes. -/
structure Covers (is : List Instruction) (b : Bytes) : Prop where
  first : ∀ i ∈ is.head?, i.offset = 0
  next : is.IsChain fun i j => j.offset = i.offset + i.size
  last : ∀ i ∈ is.getLast?, i.offset + i.size = b.length
  encoded : is.flatMap Instruction.encode = b

lemma Laid.isChain (h : Laid offset is) :
    is.IsChain fun i j => j.offset = i.offset + i.size := by
  induction is generalizing offset with
  | nil => exact .nil
  | cons i is ih =>
    obtain ⟨rfl, hrest⟩ := h
    cases is with
    | nil => exact .singleton i
    | cons j is => exact .cons_cons hrest.1 (ih hrest)

lemma covers_of_instructions (h : s.instructions = .ok is) : Covers is s.bytes := by
  obtain ⟨hbytes, hlaid, -⟩ := instructions_eq_ok_iff.1 h
  refine ⟨fun i hi => ?_, hlaid.isChain, fun i hi => ?_, hbytes.symm⟩
  · obtain ⟨js, rfl⟩ := List.head?_eq_some_iff.1 hi
    exact hlaid.1
  · obtain ⟨js, rfl⟩ := List.getLast?_eq_some_iff.1 hi
    obtain ⟨-, hoffset, -⟩ := laid_append.1 hlaid
    rw [hoffset, Nat.zero_add, hbytes, List.flatMap_append, List.length_append,
      List.flatMap_singleton, i.length_encode]
    rfl

lemma instructions_flatten (h : ∀ part ∈ parts, Instruction.Complete part) :
    ∃ is, instructions ⟨parts.flatten⟩ = .ok is ∧ is.map Instruction.encode = parts := by
  obtain ⟨is, hproper, rfl⟩ := Instruction.exists_map_encode h
  refine ⟨relaid 0 is, ?_, map_relaid (fun _ _ => rfl) 0 is⟩
  rw [← List.flatMap_def]
  exact instructions_flatMap hproper

lemma complete_of_instructions (h : s.instructions = .ok is) :
    ∀ part ∈ is.map Instruction.encode, Instruction.Complete part := by
  intro part hpart
  obtain ⟨i, hi, rfl⟩ := List.mem_map.1 hpart
  exact Instruction.complete_iff.2 ⟨i, isProper_of_instructions h i hi, rfl⟩

/-! ### Appending -/

lemma instructions_append_encode (h : s.instructions = .ok is) (hi : i.IsProper)
    (hoffset : i.offset = s.bytes.length) :
    instructions ⟨s.bytes ++ i.encode⟩ = .ok (is ++ [i]) := by
  obtain ⟨hbytes, hlaid, hproper⟩ := instructions_eq_ok_iff.1 h
  refine instructions_eq_ok_iff.2 ⟨?_, laid_append.2 ⟨hlaid, ?_, trivial⟩, ?_⟩
  · rw [List.flatMap_append, List.flatMap_singleton, ← hbytes]
  · rw [hoffset, Nat.zero_add, hbytes]
    rfl
  · intro j hj
    rcases List.mem_append.1 hj with hj | hj
    · exact hproper j hj
    · obtain rfl := List.mem_singleton.1 hj
      exact hi

lemma instructions_pushOpcode (h : s.instructions = .ok is)
    (hop : op = Opcode.push0 ∨ Opcode.push4 < op) :
    (s.pushOpcode op).instructions = .ok (is ++ [.ofOpcode op s.bytes.length]) := by
  have hproper : (Instruction.ofOpcode op s.bytes.length).IsProper := by
    rw [Instruction.isProper_ofOpcode_iff]
    · exact hop.imp_right fun hop => Nat.lt_trans (by decide) hop
    · rw [Bool.eq_false_iff, ne_eq, Opcode.isPushData_iff]
      rcases hop with rfl | hop
      · decide
      · rw [Opcode.push4_lt_iff] at hop
        omega
  have happend := instructions_append_encode h hproper rfl
  rwa [Instruction.encode_ofOpcode] at happend

lemma instructions_pushData (h : s.instructions = .ok is) (hdata : data.length ≤ 0xffffffff) :
    (s.pushData data).instructions = .ok (is ++ [.ofData data s.bytes.length]) :=
  instructions_append_encode h (Instruction.isProper_ofData_iff.2 (Nat.lt_succ_of_le hdata)) rfl

lemma length_encode_int64 (v : Int64) : (Number.encode v.toInt).length ≤ 9 := by
  refine Number.length_encode_le (by decide) ?_
  have hlow := v.le_toInt
  have hhigh := v.toInt_lt
  calc v.toInt.natAbs ≤ 2 ^ 63 := by omega
    _ < Number.room 9 := by decide

lemma instructions_pushInt (h : s.instructions = .ok is) (v : Int64) :
    (s.pushInt v.toInt).instructions =
      .ok (is ++ [.ofData (Number.encode v.toInt) s.bytes.length]) :=
  instructions_pushData h (Nat.le_trans (length_encode_int64 v) (by decide))

lemma pushDataWith_eq_ok : s.pushDataWith op data = .ok s' ↔
    (op.isPushData = true ∧ data.length < Nat.pow 256 op.lengthWidth) ∧
      s' = ⟨s.bytes ++ Instruction.encodePush op data⟩ := by
  unfold pushDataWith
  cases hop : op.isPushData with
  | false => exact iff_of_false nofun fun h => Bool.false_ne_true h.1.1
  | true =>
    rw [if_neg (by decide)]
    by_cases hlen : Nat.pow 256 op.lengthWidth ≤ data.length
    · rw [if_pos hlen]
      exact iff_of_false nofun fun h => absurd h.1.2 (Nat.not_lt.2 hlen)
    · rw [if_neg hlen, and_iff_right ⟨rfl, Nat.not_le.1 hlen⟩, Except.ok.injEq, eq_comm]

lemma instructions_pushDataWith (h : s.instructions = .ok is)
    (hpush : s.pushDataWith op data = .ok s') :
    s'.instructions = .ok (is ++ [⟨op, some data, s.bytes.length⟩]) := by
  obtain ⟨⟨hop, hlen⟩, rfl⟩ := pushDataWith_eq_ok.1 hpush
  exact instructions_append_encode h ((Instruction.isProper_push_iff hop).2 hlen) rfl

/-- **The shortest push**: a script that reads as some instructions and a push of some data is
longer than the one with the shortest length, if it is not the same. -/
lemma pushData_shortest (h : s.instructions = .ok is)
    (h' : s'.instructions = .ok (is ++ [⟨op, some data, offset⟩])) :
    s' = s.pushData data ∨ (s.pushData data).bytes.length < s'.bytes.length := by
  have hbytes : s'.bytes = s.bytes ++ (Instruction.mk op (some data) offset).encode := by
    rw [bytes_of_instructions h', List.flatMap_append, List.flatMap_singleton,
      ← bytes_of_instructions h]
  have hproper := isProper_of_instructions h' _ (List.mem_append_right is
    (List.mem_singleton_self _))
  rcases hproper.canonicalPush_or_lt with rfl | hlt
  · exact .inl (congrArg Script.mk hbytes)
  · right
    change (s.bytes ++ (Instruction.ofData data offset).encode).length < _
    rw [hbytes, List.length_append, List.length_append, Instruction.length_encode,
      Instruction.length_encode]
    exact Nat.add_lt_add_left (Nat.add_lt_add_right (Nat.add_lt_add_left hlt 1) _) _

/-- **Reading and building.** Bytes are accepted as a script exactly if they are complete
instructions one after the other. They then read as these, which cover them. What is appended to
a script that reads as instructions, an opcode on its own, the shortest push of some data or of a
number, or a push with a chosen length, reads as one instruction more, and no push of the data is
as short as the shortest. -/
theorem reads_what_is_built :
    (∀ b : Bytes,
      ((∃ s, ofBytes b = .ok s) ↔
        ∃ parts : List Bytes, (∀ part ∈ parts, Instruction.Complete part) ∧ b = parts.flatten) ∧
      ∀ s, ofBytes b = .ok s → s.bytes = b ∧ ∃ is, s.instructions = .ok is ∧ Covers is b ∧
        ∀ parts : List Bytes, (∀ part ∈ parts, Instruction.Complete part) → b = parts.flatten →
          is.map Instruction.encode = parts) ∧
    ∀ (s : Script) (is : List Instruction), s.instructions = .ok is →
      (∀ op, op = Opcode.push0 ∨ Opcode.push4 < op → (s.pushOpcode op).instructions =
        .ok (is ++ [⟨op, if op = Opcode.push0 then some [] else none, s.bytes.length⟩])) ∧
      (∀ data : Bytes, data.length ≤ 0xffffffff → (s.pushData data).instructions =
        .ok (is ++ [⟨Opcode.canonicalPush data.length, some data, s.bytes.length⟩])) ∧
      (∀ v : Int64, (s.pushInt v.toInt).instructions = .ok (is ++
        [⟨Opcode.canonicalPush (Number.encode v.toInt).length, some (Number.encode v.toInt),
          s.bytes.length⟩])) ∧
      (∀ op data s', s.pushDataWith op data = .ok s' →
        s'.instructions = .ok (is ++ [⟨op, some data, s.bytes.length⟩])) ∧
      ∀ op data offset s', s'.instructions = .ok (is ++ [⟨op, some data, offset⟩]) →
        s' = s.pushData data ∨ (s.pushData data).bytes.length < s'.bytes.length := by
  refine ⟨fun b => ⟨⟨?_, ?_⟩, ?_⟩, fun s is h => ⟨fun op => instructions_pushOpcode h,
    fun data => instructions_pushData h, instructions_pushInt h,
    fun op data s' => instructions_pushDataWith h, fun op data offset s' => pushData_shortest h⟩⟩
  · rintro ⟨s, hs⟩
    obtain ⟨rfl, is, his⟩ := ofBytes_eq_ok.1 hs
    refine ⟨is.map Instruction.encode, complete_of_instructions his, ?_⟩
    rw [← List.flatMap_def]
    exact bytes_of_instructions his
  · rintro ⟨parts, hparts, rfl⟩
    obtain ⟨is, his, -⟩ := instructions_flatten hparts
    exact ⟨_, ofBytes_eq_ok.2 ⟨rfl, is, his⟩⟩
  · intro s hs
    obtain ⟨rfl, is, his⟩ := ofBytes_eq_ok.1 hs
    refine ⟨rfl, is, his, covers_of_instructions his, fun parts hparts hb => ?_⟩
    obtain ⟨js, hjs, hmap⟩ := instructions_flatten hparts
    rw [← hb, his] at hjs
    cases hjs
    exact hmap

theorem reads_what_is_built_mixed :
    let data := List.replicate 76 (0xab : UInt8)
    let s := ((empty.pushOpcode 0x76).pushData data).pushInt (-1)
    (∃ s', s.pushDataWith Opcode.push2 [0x05] = .ok s' ∧ s'.instructions =
      .ok [⟨0x76, none, 0⟩, ⟨Opcode.push1, some data, 1⟩, ⟨0x01, some [0x81], 79⟩,
        ⟨Opcode.push2, some [0x05], 81⟩] ∧
      (s.pushData [0x05]).bytes.length < s'.bytes.length) ∧
    ∃ t, ofBytes [0x01, 0x76, 0x4d, 0x01, 0x00, 0xff] = .ok t := by
  obtain ⟨hread, hbuild⟩ := reads_what_is_built
  have hempty : empty.instructions = .ok [] := rfl
  have hdup := (hbuild empty [] hempty).1 0x76 (.inr (by decide))
  obtain ⟨-, hdata, -⟩ := hbuild _ _ hdup
  obtain ⟨-, -, hint, -⟩ := hbuild _ _ (hdata (List.replicate 76 0xab) (by decide))
  obtain ⟨-, -, -, hwith, hshortest⟩ := hbuild _ _ (hint (-1))
  have hlast := hwith Opcode.push2 [0x05] _ rfl
  refine ⟨⟨_, rfl, hlast, (hshortest _ _ _ _ hlast).resolve_left ?_⟩, (hread _).1.2 ?_⟩
  · exact fun h => absurd (congrArg (fun t : Script => t.bytes.length) h) (by decide)
  · refine ⟨[[0x01, 0x76], [0x4d, 0x01, 0x00, 0xff]], ?_, rfl⟩
    have hdirect : Instruction.Complete [0x01, 0x76] := .direct (by decide) rfl
    have hcounted : Instruction.Complete [0x4d, 0x01, 0x00, 0xff] :=
      @Instruction.Complete.counted 0x4d 2 [0xff] (by decide) (by decide)
    simp [hdirect, hcounted]

end Script

end CoinScript
