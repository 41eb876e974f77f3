import CoinScript.Machine.Signature
import CoinScript.Proofs.Script.Proper

/-!
Parts of a script.

Proper instructions written one after the other read as themselves, moved to where they now stand.
So what follows an instruction of a script reads as the instructions that followed it, and taking
pushes out of it, one kind after another, is taking them all out at once.
-/

namespace CoinScript

variable {offset : Nat} {is js : List Instruction}

/-- An instruction as it stands when some bytes before it are gone. -/
def Instruction.moveUp (gone : Nat) (i : Instruction) : Instruction :=
  { i with offset := i.offset - gone }

/-- The number of bytes that instructions take. -/
def spanOf (is : List Instruction) : Nat := (is.flatMap Instruction.encode).length

@[simp] lemma spanOf_nil : spanOf [] = 0 := rfl

lemma spanOf_cons {i : Instruction} : spanOf (i :: is) = i.size + spanOf is := by
  unfold spanOf
  rw [List.flatMap_cons, List.length_append, i.length_encode]

namespace Script

lemma laid_append :
    Laid offset (is ++ js) ↔ Laid offset is ∧ Laid (offset + spanOf is) js := by
  induction is generalizing offset with
  | nil => exact (and_iff_right trivial).symm
  | cons i is ih => rw [List.cons_append, Laid, Laid, ih, spanOf_cons, Nat.add_assoc, and_assoc]

lemma Laid.left (h : Laid offset (is ++ js)) : Laid offset is := (laid_append.1 h).1

lemma drop_spanOf {s : Script} (h : s.instructions = .ok (is ++ js)) :
    s.bytes.drop (spanOf is) = js.flatMap Instruction.encode := by
  rw [bytes_of_instructions h, List.flatMap_append]
  exact List.drop_left

/-! ### Moving instructions -/

/-- Instructions moved to stand one behind the other from an offset on. -/
def relaid : (offset : Nat) → List Instruction → List Instruction
  | _, [] => []
  | offset, i :: is => { i with offset := offset } :: relaid (offset + i.size) is

lemma laid_relaid (offset : Nat) (is : List Instruction) : Laid offset (relaid offset is) := by
  induction is generalizing offset with
  | nil => trivial
  | cons i is ih => exact ⟨rfl, ih _⟩

lemma isProper_relaid (h : ∀ i ∈ is, i.IsProper) : ∀ i ∈ relaid offset is, i.IsProper := by
  induction is generalizing offset with
  | nil => exact fun _ hi => (List.not_mem_nil hi).elim
  | cons i is ih =>
    intro j hj
    rcases List.mem_cons.1 hj with rfl | hj
    · exact h i List.mem_cons_self
    · exact ih (fun k hk => h k (List.mem_cons_of_mem i hk)) j hj

/-- What does not ask where an instruction stands. -/
def Placeless {α : Type} (f : Instruction → α) : Prop :=
  ∀ (i : Instruction) (offset : Nat), f { i with offset := offset } = f i

lemma map_filter_relaid {α : Type} {keep : Instruction → Bool} {f : Instruction → α}
    (hkeep : Placeless keep) (hf : Placeless f) (offset : Nat) (is : List Instruction) :
    ((relaid offset is).filter keep).map f = (is.filter keep).map f := by
  induction is generalizing offset with
  | nil => rfl
  | cons i is ih =>
    rw [relaid, List.filter_cons, List.filter_cons, hkeep i offset]
    cases keep i with
    | true => rw [if_pos rfl, if_pos rfl, List.map_cons, List.map_cons, hf i offset, ih]
    | false => exact ih _

lemma map_relaid {α : Type} {f : Instruction → α} (hf : Placeless f) (offset : Nat)
    (is : List Instruction) : (relaid offset is).map f = is.map f := by
  have hplaceless : Placeless fun _ => true := fun _ _ => rfl
  have hall := map_filter_relaid hplaceless hf offset is
  rwa [List.filter_eq_self.2 fun _ _ => rfl, List.filter_eq_self.2 fun _ _ => rfl] at hall

lemma flatMap_relaid (offset : Nat) (is : List Instruction) :
    (relaid offset is).flatMap Instruction.encode = is.flatMap Instruction.encode := by
  rw [List.flatMap_def, List.flatMap_def, map_relaid fun _ _ => rfl]

lemma instructions_flatMap (h : ∀ i ∈ is, i.IsProper) :
    instructions ⟨is.flatMap Instruction.encode⟩ = .ok (relaid 0 is) :=
  instructions_eq_ok_iff.2 ⟨(flatMap_relaid 0 is).symm, laid_relaid 0 is, isProper_relaid h⟩

lemma filter_flatMap {keep : Instruction → Bool} (hkeep : Placeless keep)
    (h : ∀ i ∈ is, i.IsProper) : filter keep ⟨is.flatMap Instruction.encode⟩ =
      .ok ⟨(is.filter keep).flatMap Instruction.encode⟩ := by
  rw [filter_of_instructions (instructions_flatMap h), List.flatMap_def, List.flatMap_def,
    map_filter_relaid hkeep fun _ _ => rfl]

/-! ### What follows an instruction -/

lemma relaid_eq_map {gone : Nat} (h : Laid offset is) (hle : gone ≤ offset) :
    relaid (offset - gone) is = is.map (Instruction.moveUp gone) := by
  induction is generalizing offset with
  | nil => rfl
  | cons i is ih =>
    obtain ⟨rfl, hrest⟩ := h
    rw [relaid, List.map_cons, ← ih hrest (by omega), Instruction.moveUp, Nat.sub_add_comm hle]

lemma Laid.offset_lt (h : Laid offset is) {i : Instruction} (hi : i ∈ is) :
    i.offset < offset + spanOf is := by
  induction is generalizing offset with
  | nil => cases hi
  | cons j is ih =>
    obtain ⟨rfl, hrest⟩ := h
    have hsize := j.size_pos
    rw [spanOf_cons]
    rcases List.mem_cons.1 hi with rfl | hi
    · omega
    · have hlt := ih hrest hi
      omega

variable {s : Script} {front rest : List Instruction} {i : Instruction}

lemma offset_of_instructions (h : s.instructions = .ok (front ++ i :: rest)) :
    i.offset = spanOf front := by
  obtain ⟨-, hoffset, -⟩ := laid_append.1 (instructions_eq_ok_iff.1 h).2.1
  rw [hoffset, Nat.zero_add]

/-- **What follows an instruction** reads as the instructions that follow it, moved up. -/
lemma subscriptAfter_eq (h : s.instructions = .ok (front ++ i :: rest)) :
    s.subscriptAfter i.offset = .ok ⟨s.bytes.drop (i.offset + i.size)⟩ ∧
      instructions ⟨s.bytes.drop (i.offset + i.size)⟩ =
        .ok (rest.map (Instruction.moveUp (i.offset + i.size))) := by
  have hoffset := offset_of_instructions h
  obtain ⟨-, hlaid, hproper⟩ := instructions_eq_ok_iff.1 h
  obtain ⟨hfront, -, hrest⟩ := laid_append.1 hlaid
  constructor
  · have hfind : (front ++ i :: rest).find? (·.offset = i.offset) = some i := by
      -- the instructions before stand at smaller offsets
      have hearlier : front.find? (·.offset = i.offset) = none := by
        refine List.find?_eq_none.2 fun j hj => ?_
        have hlt := hfront.offset_lt hj
        simp only [decide_eq_true_eq]
        omega
      rw [List.find?_append, hearlier, Option.none_or, List.find?_cons_of_pos (by simp)]
    unfold subscriptAfter
    rw [h, Except.ok_bind, hfind]
    rfl
  · have hspan : i.offset + i.size = spanOf (front ++ [i]) := by
      unfold spanOf at hoffset ⊢
      rw [List.flatMap_append, List.length_append, ← hoffset, List.flatMap_singleton,
        i.length_encode]
    have hbytes : s.bytes.drop (i.offset + i.size) = rest.flatMap Instruction.encode := by
      rw [hspan]
      exact drop_spanOf (by rw [h, List.append_assoc, List.singleton_append])
    have hafter : Laid (i.offset + i.size) rest := by rwa [hoffset, ← Nat.zero_add (spanOf front)]
    rw [hbytes, instructions_flatMap fun j hj => hproper j (by simp [hj]),
      ← relaid_eq_map hafter (Nat.le_refl _), Nat.sub_self]

end Script

/-! ### Taking out pushes -/

def Instruction.pushes (i : Instruction) (data : Bytes) : Bool :=
  i.opcode == Opcode.canonicalPush data.length && i.data? == some data

/-- The instructions that push none of some signatures in the shortest way. -/
def Signature.unsigned (signatures : List Bytes) (is : List Instruction) : List Instruction :=
  is.filter fun i => !signatures.any i.pushes

lemma Signature.strip_flatMap (signatures : List Bytes) (h : ∀ i ∈ is, i.IsProper) :
    strip ⟨is.flatMap Instruction.encode⟩ signatures =
      .ok ⟨(unsigned signatures is).flatMap Instruction.encode⟩ := by
  induction signatures generalizing is with
  | nil =>
    have hall : unsigned [] is = is := List.filter_eq_self.2 fun _ _ => rfl
    rw [hall]
    rfl
  | cons sig sigs ih =>
    have hfirst : Script.removePush ⟨is.flatMap Instruction.encode⟩ sig =
        .ok ⟨(is.filter fun i => !i.pushes sig).flatMap Instruction.encode⟩ :=
      Script.filter_flatMap (fun _ _ => rfl) h
    -- what is left has the encoding of instructions again, so the next signature can be taken out
    have hproper : ∀ i ∈ is.filter fun i => !i.pushes sig, i.IsProper :=
      fun i hi => h i (List.mem_filter.1 hi).1
    have hboth : unsigned sigs (is.filter fun i => !i.pushes sig) = unsigned (sig :: sigs) is := by
      unfold unsigned
      rw [List.filter_filter]
      refine List.filter_congr fun i _ => ?_
      rw [List.any_cons, Bool.not_or, Bool.and_comm]
    rw [← hboth, ← ih hproper]
    unfold strip
    rw [List.foldlM_cons, hfirst, Except.ok_bind]

end CoinScript
