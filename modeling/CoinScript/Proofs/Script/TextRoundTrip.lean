import CoinScript.Proofs.Script.Proper
import CoinScript.Proofs.Script.Tokens

/-!
Scripts written as text and read back.

Each instruction of a script is written as one token or two. Under a table that is legible, these
tokens read as the instruction again, so that the whole text reads as the script it was written
from.
-/

namespace CoinScript

open Text

namespace Text

variable {t : OpcodeTable} {i : Instruction} {is : List Instruction} {rest : List Char}

def instructionTokens (t : OpcodeTable) (i : Instruction) : List Token :=
  match i.data? with
  | none => [.word (t.name i.opcode).toList]
  | some data =>
    if i.opcode = Opcode.push0 then [.word (t.name i.opcode).toList]
    else if i.opcode = Opcode.canonicalPush data.length then [.ofData data]
    else [.word (t.name i.opcode).toList, .ofData data]

/-! ### Text to tokens -/

lemma scan_name (h : t.Legible) (op : Opcode) (hrest : Parted rest) :
    scan .between ((t.name op).toList ++ rest) =
      (.word (t.name op).toList :: ·) <$> scan .between rest :=
  scan_token (t := .word (t.name op).toList) (h.isWord_name op) hrest

lemma scan_renderLiteral (b : Bytes) (hrest : Parted rest) :
    scan .between ((renderLiteral b).toList ++ rest) =
      (.ofData b :: ·) <$> scan .between rest := by
  rw [toList_renderLiteral]
  exact scan_token (isProper_ofData b) hrest

lemma scan_renderInstruction (h : t.Legible) (i : Instruction) (hrest : Parted rest) :
    scan .between ((renderInstruction t i).toList ++ rest) =
      (instructionTokens t i ++ ·) <$> scan .between rest := by
  unfold renderInstruction instructionTokens
  cases i.data? with
  | none => exact scan_name h i.opcode hrest
  | some data =>
    by_cases hzero : i.opcode = Opcode.push0
    · simp only [if_pos hzero]
      exact scan_name h i.opcode hrest
    · by_cases hshort : i.opcode = Opcode.canonicalPush data.length
      · simp only [if_neg hzero, if_pos hshort]
        exact scan_renderLiteral data hrest
      · simp only [if_neg hzero, if_neg hshort]
        have htext : (t.name i.opcode ++ " " ++ renderLiteral data).toList ++ rest =
            (t.name i.opcode).toList ++ ' ' :: ((renderLiteral data).toList ++ rest) := by
          simp
        rw [htext, scan_name h i.opcode (parted_blank _), scan_blank,
          scan_renderLiteral data hrest]
        cases scan .between rest <;> rfl

lemma tokens_intercalate (h : t.Legible) (is : List Instruction) :
    tokens (String.intercalate " " (is.map (renderInstruction t))) =
      .ok (is.flatMap (instructionTokens t)) := by
  unfold tokens
  rw [String.toList_intercalate, List.map_map]
  induction is with
  | nil => rfl
  | cons i is ih =>
    cases is with
    | nil =>
      have hscan := scan_renderInstruction h i parted_nil
      rw [List.append_nil] at hscan
      rw [List.map_singleton, List.intercalate_singleton, Function.comp_apply, hscan,
        List.flatMap_singleton]
      exact congrArg Except.ok (List.append_nil _)
    | cons j is =>
      have hblank (cs : List Char) : " ".toList ++ cs = ' ' :: cs := rfl
      rw [List.map_cons] at ih
      rw [List.map_cons, List.map_cons, List.intercalate_cons_cons, List.append_assoc, hblank,
        Function.comp_apply, scan_renderInstruction h i (parted_blank _), scan_blank, ih]
      rfl

/-! ### Tokens to bytes -/

lemma ofToken_name (h : t.Legible) (op : Opcode) :
    Item.ofToken t (.word (t.name op).toList) = .ok (.opcode op (t.name op).toList) := by
  unfold Item.ofToken
  simp only [String.ofList_toList, h.value?_name]

lemma assemble_instructionTokens (h : t.Legible) (hi : i.IsProper) (ts : List Token) :
    assemble t none (instructionTokens t i ++ ts) =
      (Script.append ⟨i.encode⟩ ·) <$> assemble t none ts := by
  rcases i with ⟨op, data?, offset⟩
  unfold instructionTokens
  cases data? with
  | none =>
    rw [Instruction.isProper_mk_none, Opcode.push4_lt_iff] at hi
    have hpush : op.isPushData = false := by
      rw [Bool.eq_false_iff, ne_eq, Opcode.isPushData_iff]
      omega
    rw [List.singleton_append, assemble, ofToken_name h]
    simp only [Except.ok_bind, hpush, Bool.false_eq_true, if_false]
    rfl
  | some data =>
    by_cases hzero : op = Opcode.push0
    · -- the only push with this opcode is the one of no bytes
      subst hzero
      have hdata : data = [] := by
        rcases Instruction.isProper_mk_some.1 hi with ⟨-, hlen⟩ | ⟨hpush, -⟩
        · exact List.eq_nil_of_length_eq_zero hlen
        · cases hpush
      subst hdata
      simp only [if_true]
      rw [List.singleton_append, assemble, ofToken_name h]
      simp only [Except.ok_bind]
      rfl
    · by_cases hshort : op = Opcode.canonicalPush data.length
      · simp only [if_neg hzero, if_pos hshort]
        rw [List.singleton_append, assemble, ofToken_ofData h]
        simp only [Except.ok_bind, Script.pushData, hshort]
        rfl
      · -- a push that is not the shortest spells its opcode, and only the ones with a length
        -- field are left
        have hlong : op.isPushData = true ∧ data.length < Nat.pow 256 op.lengthWidth := by
          refine (Instruction.isProper_mk_some.1 hi).resolve_left ?_
          rintro ⟨hdirect, hlen⟩
          exact hshort (hlen ▸ (Opcode.canonicalPush_toNat hdirect).symm)
        have hwith : Script.empty.pushDataWith op data =
            .ok ⟨Instruction.encodePush op data⟩ := by
          unfold Script.pushDataWith
          simp only [hlong.1, Bool.not_true, Bool.false_eq_true, if_false,
            if_neg (Nat.not_le.2 hlong.2)]
          rfl
        simp only [if_neg hzero, if_neg hshort]
        rw [List.cons_append, List.singleton_append, assemble, ofToken_name h]
        simp only [Except.ok_bind, hlong.1, if_true]
        rw [assemble, ofToken_ofData h]
        simp only [Except.ok_bind, hwith]
        rfl

lemma assemble_flatMap (h : t.Legible) (his : ∀ i ∈ is, i.IsProper) :
    assemble t none (is.flatMap (instructionTokens t)) =
      .ok ⟨is.flatMap Instruction.encode⟩ := by
  induction is with
  | nil => rfl
  | cons i is ih =>
    rw [List.flatMap_cons, assemble_instructionTokens h (his i List.mem_cons_self),
      ih fun j hj => his j (List.mem_cons_of_mem i hj)]
    rfl

end Text

namespace Script

variable {t : OpcodeTable} {s : Script} {b : Bytes}

/-! ### Scripts -/

lemma ofText_toText_of_legible {is : List Instruction} (h : t.Legible)
    (hs : s.instructions = .ok is) : ∃ text, s.toText t = .ok text ∧ ofText t text = .ok s := by
  obtain ⟨hbytes, -, hproper⟩ := instructions_eq_ok_iff.1 hs
  refine ⟨String.intercalate " " (is.map (renderInstruction t)), ?_, ?_⟩
  · rw [toText, hs]
    rfl
  · rw [ofText, tokens_intercalate h is, Except.ok_bind, assemble_flatMap h hproper, ← hbytes]

/-- **Text keeps every byte of a script.** Under a table that is renamed with care, whatever bytes
are read as a script can be written as text, and the text reads as these bytes. -/
theorem ofText_toText (h : t.Careful) (hb : ofBytes b = .ok s) :
    ∃ text, s.toText t = .ok text ∧ ofText t text = .ok ⟨b⟩ := by
  obtain ⟨rfl, is, his⟩ := ofBytes_eq_ok.1 hb
  exact ofText_toText_of_legible h.legible his

/-- A table with two new names, of which the second was what the other opcode had been called. -/
def renamed : OpcodeTable :=
  (((OpcodeTable.standard.setDisabled [0x00]).rename 0xf0 "hodl").register 0xb1
    NamedHandler.nop).rename 0xf1 "unknown240"

set_option maxRecDepth 4000 in
lemma careful_renamed : renamed.Careful := by
  refine .rename (.register _ _ (.rename (.setDisabled _ .standard) ?_)) ?_
  · decide
  · decide

/-- Opcodes with a new name and without a name, and pushes with shortest and with longer
lengths, of none and of printable and of other bytes. -/
def motley : Bytes :=
  [0xf0, 0xf1, 0xf2, 0x4c, 0x00, 0x4d, 0x01, 0x00, 0x61, 0x03, 0x68, 0x22, 0xff, 0x02, 0x68, 0x69,
    0x00]

theorem ofText_toText_renamed : renamed.Careful ∧ ofBytes motley = .ok ⟨motley⟩ ∧
    ∃ text, toText renamed ⟨motley⟩ = .ok text ∧ ofText renamed text = .ok ⟨motley⟩ := by
  have hmotley : ofBytes motley = .ok ⟨motley⟩ := by decide +kernel
  exact ⟨careful_renamed, hmotley, ofText_toText careful_renamed hmotley⟩

set_option maxRecDepth 4000 in
example : toText renamed ⟨motley⟩ = .ok ("OP_HODL OP_UNKNOWN240 OP_UNKNOWN242 OP_PUSHDATA1 0x " ++
    "OP_PUSHDATA2 \"a\" 0x6822ff \"hi\" OP_0") :=
  rfl

end Script

end CoinScript
