import CoinScript.Profile
import CoinScript.Proofs.Script.Building
import CoinScript.Proofs.Script.TextRoundTrip

/-!
The instructions that a text spells.

An opcode with a length behind it spells one instruction together with the literal that follows,
and every other token spells one of its own. The script that is read from a text is written as
these instructions. It reads as them too unless a token names a direct push, which then takes
what the next tokens spell for its data, or stands for data that is too long for any push.
-/

namespace CoinScript

open Text

namespace Text

variable {t : OpcodeTable} {token literal : Token} {ts : List Token} {is : List Instruction}
  {offset : Nat} {s : Script}

/-- The instructions that tokens spell, of which the first stands at an offset. -/
inductive Spells (t : OpcodeTable) : (offset : Nat) → List Token → List Instruction → Prop
  | nil {offset : Nat} : Spells t offset [] []
  | opcode {offset : Nat} {token : Token} {op : Opcode} {word : List Char} {ts : List Token}
      {is : List Instruction} :
      Item.ofToken t token = .ok (.opcode op word) → op.isPushData = false →
      Spells t (offset + 1) ts is → Spells t offset (token :: ts) (.ofOpcode op offset :: is)
  | data {offset : Nat} {token : Token} {b : Bytes} {ts : List Token} {is : List Instruction} :
      Item.ofToken t token = .ok (.data b) →
      Spells t (offset + (Instruction.ofData b offset).size) ts is →
      Spells t offset (token :: ts) (.ofData b offset :: is)
  | push {offset : Nat} {token literal : Token} {op : Opcode} {word : List Char} {b : Bytes}
      {ts : List Token} {is : List Instruction} :
      Item.ofToken t token = .ok (.opcode op word) → op.isPushData = true →
      Item.ofToken t literal = .ok (.data b) → b.length < Nat.pow 256 op.lengthWidth →
      Spells t (offset + (Instruction.mk op (some b) offset).size) ts is →
      Spells t offset (token :: literal :: ts) (⟨op, some b, offset⟩ :: is)

/-- Whether a token reads as the instruction it spells: it names no direct push, but for the one
of no bytes, and its data has a length of four bytes. -/
structure Token.Fits (t : OpcodeTable) (token : Token) : Prop where
  opcode : ∀ op word, Item.ofToken t token = .ok (.opcode op word) →
    op = Opcode.push0 ∨ Opcode.pushDirectMax < op
  data : ∀ b, Item.ofToken t token = .ok (.data b) → b.length < 256 ^ 4

/-! ### What is assembled -/

lemma assemble_some_eq_ok {op : Opcode} (h : assemble t (some op) ts = .ok s) :
    ∃ literal rest b s', ts = literal :: rest ∧ Item.ofToken t literal = .ok (.data b) ∧
      b.length < Nat.pow 256 op.lengthWidth ∧ assemble t none rest = .ok s' ∧
      s.bytes = Instruction.encodePush op b ++ s'.bytes := by
  cases ts with
  | nil => cases h
  | cons literal rest =>
    rw [assemble, Except.bind_eq_ok] at h
    obtain ⟨item, hitem, h⟩ := h
    cases item with
    | opcode op' word => cases h
    | data b =>
      obtain ⟨push, hpush, h⟩ := Except.bind_eq_ok.1 h
      obtain ⟨s', hrest, h⟩ := Except.bind_eq_ok.1 h
      unfold Script.pushDataWith at hpush
      split_ifs at hpush with hop hlen
      cases hpush
      cases h
      exact ⟨literal, rest, b, s', rfl, hitem, Nat.not_le.1 hlen, hrest, rfl⟩

/-- **What is assembled** is written as the instructions that the tokens spell. -/
lemma exists_spells (h : assemble t none ts = .ok s) (offset : Nat) :
    ∃ is, Spells t offset ts is ∧ s.bytes = is.flatMap Instruction.encode := by
  -- a push takes two tokens at once, so the induction is on their number
  induction hn : ts.length using Nat.strong_induction_on generalizing ts s offset with
  | _ n ih =>
    subst hn
    cases ts with
    | nil =>
      cases h
      exact ⟨[], .nil, rfl⟩
    | cons token ts =>
      rw [assemble, Except.bind_eq_ok] at h
      obtain ⟨item, hitem, h⟩ := h
      cases item with
      | opcode op word =>
        cases hpush : op.isPushData with
        | false =>
          simp only [hpush, Bool.false_eq_true, if_false] at h
          obtain ⟨s', hrest, h⟩ := Except.bind_eq_ok.1 h
          cases h
          obtain ⟨is, hspells, hbytes⟩ := ih _ (Nat.lt_succ_self _) hrest (offset + 1) rfl
          refine ⟨_, .opcode hitem hpush hspells, ?_⟩
          rw [List.flatMap_cons, Instruction.encode_ofOpcode, ← hbytes]
          rfl
        | true =>
          simp only [hpush, if_true] at h
          obtain ⟨literal, rest, b, s', rfl, hliteral, hlen, hrest, hs⟩ := assemble_some_eq_ok h
          obtain ⟨is, hspells, hbytes⟩ := ih _ (by simp) hrest
            (offset + (Instruction.mk op (some b) offset).size) rfl
          refine ⟨_, .push hitem hpush hliteral hlen hspells, ?_⟩
          rw [List.flatMap_cons, ← hbytes, hs]
          rfl
      | data b =>
        obtain ⟨s', hrest, h⟩ := Except.bind_eq_ok.1 h
        cases h
        obtain ⟨is, hspells, hbytes⟩ := ih _ (Nat.lt_succ_self _) hrest
          (offset + (Instruction.ofData b offset).size) rfl
        refine ⟨_, .data hitem hspells, ?_⟩
        rw [List.flatMap_cons, ← hbytes]
        rfl

/-! ### What is read -/

lemma Spells.laid (h : Spells t offset ts is) : Script.Laid offset is := by
  induction h with
  | nil => trivial
  | opcode _ _ _ ih =>
    refine ⟨rfl, ?_⟩
    rwa [Instruction.size_ofOpcode]
  | data _ _ ih => exact ⟨rfl, ih⟩
  | push _ _ _ _ _ ih => exact ⟨rfl, ih⟩

lemma Token.fits_iff_of_opcode {op : Opcode} {word : List Char}
    (h : Item.ofToken t token = .ok (.opcode op word)) :
    token.Fits t ↔ op = Opcode.push0 ∨ Opcode.pushDirectMax < op := by
  refine ⟨fun hfits => hfits.opcode op word h, fun hop => ⟨?_, ?_⟩⟩
  · intro op' word' h'
    rw [h] at h'
    cases h'
    exact hop
  · intro b h'
    rw [h] at h'
    cases h'

lemma Token.fits_iff_of_data {b : Bytes} (h : Item.ofToken t token = .ok (.data b)) :
    token.Fits t ↔ b.length < 256 ^ 4 := by
  refine ⟨fun hfits => hfits.data b h, fun hlen => ⟨?_, ?_⟩⟩
  · intro op word h'
    rw [h] at h'
    cases h'
  · intro b' h'
    rw [h] at h'
    cases h'
    exact hlen

lemma Spells.isProper_iff (h : Spells t offset ts is) :
    (∀ i ∈ is, i.IsProper) ↔ ∀ token ∈ ts, token.Fits t := by
  induction h with
  | nil => simp
  | opcode hitem hpush _ ih =>
    rw [List.forall_mem_cons, List.forall_mem_cons, ih, Instruction.isProper_ofOpcode_iff hpush,
      Token.fits_iff_of_opcode hitem]
  | data hitem _ ih =>
    rw [List.forall_mem_cons, List.forall_mem_cons, ih, Instruction.isProper_ofData_iff,
      Token.fits_iff_of_data hitem]
  | @push _ _ _ op _ b _ _ hitem hpush hliteral hlen _ ih =>
    -- both tokens of a push with a length behind it fit, whatever the length is
    have hop : Opcode.pushDirectMax < op := by
      rw [Opcode.isPushData_iff] at hpush
      rw [Opcode.pushDirectMax_lt_iff]
      omega
    have hfour : b.length < 256 ^ 4 :=
      lt_of_lt_of_le hlen (Nat.pow_le_pow_right (by decide) op.lengthWidth_le)
    rw [List.forall_mem_cons, List.forall_mem_cons, List.forall_mem_cons, ih,
      Instruction.isProper_push_iff hpush, Token.fits_iff_of_opcode hitem,
      Token.fits_iff_of_data hliteral, and_iff_right hlen, and_iff_right (Or.inr hop),
      and_iff_right hfour]

end Text

namespace Script

variable {t : OpcodeTable} {text : String} {s : Script}

lemma ofText_eq_ok : ofText t text = .ok s ↔
    ∃ ts, tokens text = .ok ts ∧ assemble t none ts = .ok s := Except.bind_eq_ok

/-! ### The networks -/

lemma careful_timeLocked : OpcodeTable.timeLocked.Careful :=
  .register _ _ (.register _ _ .standard)

/-- **What a text reads as.** Under the table of either network, the script that is read from a
text is written as the instructions that the tokens of the text spell, in order. It has these
instructions exactly if every token fits. A script that has instructions at all can be written as
text that reads as the script. -/
theorem ofText_spells {p : Profile} (hp : p = .bitcoin ∨ p = .clams)
    (h : ofText p.opcodes text = .ok s) :
    ∃ ts is, tokens text = .ok ts ∧ Spells p.opcodes 0 ts is ∧
      s.bytes = is.flatMap Instruction.encode ∧
      (s.instructions = .ok is ↔ ∀ token ∈ ts, token.Fits p.opcodes) ∧
      ((∃ is', s.instructions = .ok is') →
        ∃ text', s.toText p.opcodes = .ok text' ∧ ofText p.opcodes text' = .ok s) := by
  have htable : p.opcodes = .timeLocked := by
    rcases hp with rfl | rfl <;> rfl
  rw [htable] at h ⊢
  obtain ⟨ts, hts, hs⟩ := ofText_eq_ok.1 h
  obtain ⟨is, hspells, hbytes⟩ := exists_spells hs 0
  refine ⟨ts, is, hts, hspells, hbytes, ?_, ?_⟩
  · rw [instructions_eq_ok_iff, and_iff_right hbytes, and_iff_right hspells.laid,
      hspells.isProper_iff]
  · rintro ⟨is', his'⟩
    exact ofText_toText_of_legible careful_timeLocked.legible his'

theorem ofText_spells_mixed :
    let s : Script := ⟨[0x76, 0x4d, 0x02, 0x00, 0x01, 0x02, 0x01, 0x05, 0x02, 0x68, 0x69, 0x00]⟩
    let text := "dup OP_PUSHDATA2 0x0102 5 \"hi\" OP_0"
    ofText Profile.bitcoin.opcodes text = .ok s ∧
    ∃ ts is, tokens text = .ok ts ∧ Spells Profile.bitcoin.opcodes 0 ts is ∧
      s.bytes = is.flatMap Instruction.encode ∧
      (s.instructions = .ok is ↔ ∀ token ∈ ts, token.Fits Profile.bitcoin.opcodes) ∧
      ((∃ is', s.instructions = .ok is') → ∃ text', s.toText Profile.bitcoin.opcodes = .ok text' ∧
        ofText Profile.bitcoin.opcodes text' = .ok s) := by
  have h : ofText Profile.bitcoin.opcodes "dup OP_PUSHDATA2 0x0102 5 \"hi\" OP_0" =
      .ok ⟨[0x76, 0x4d, 0x02, 0x00, 0x01, 0x02, 0x01, 0x05, 0x02, 0x68, 0x69, 0x00]⟩ := by
    decide +kernel
  exact ⟨h, ofText_spells (.inl rfl) h⟩

/-- Tokens that name direct pushes: the first lacks what it pushes, and the second pushes the
opcode that the next token names. -/
theorem ofText_direct :
    (ofText Profile.bitcoin.opcodes "OP_UNKNOWN5" = .ok ⟨[0x05]⟩ ∧
      instructions ⟨[0x05]⟩ = .error (.parse (.truncatedPush 5 0 0))) ∧
    ofText Profile.bitcoin.opcodes "OP_UNKNOWN1 OP_DUP" = .ok ⟨[0x01, 0x76]⟩ ∧
      instructions ⟨[0x01, 0x76]⟩ = .ok [⟨0x01, some [0x76], 0⟩] := by
  refine ⟨⟨?_, rfl⟩, ?_, rfl⟩
  · decide +kernel
  · decide +kernel

end Script

end CoinScript
