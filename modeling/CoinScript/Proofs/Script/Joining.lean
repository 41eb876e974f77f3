import CoinScript.Proofs.Except
import CoinScript.Script.Text

/-!
Texts one after another.

A text that is read leaves nothing behind: its last word ends where a blank follows, no string
literal is open at its end, and no opcode waits there for its data. So with a blank between them,
what follows such a text is read as if it stood alone, and its bytes are appended.
-/

namespace CoinScript

namespace Script

lemma append_assoc (s s' s'' : Script) : (s.append s').append s'' = s.append (s'.append s'') := by
  unfold append
  rw [List.append_assoc]

end Script

namespace Text

variable {t : OpcodeTable} {mode : Mode} {cs w rest : List Char} {ts ts' : List Token} {s : Script}

/-! ### Tokens -/

lemma scan_blanks (h : ∀ c ∈ w, isBlank c = true) :
    scan .between (w ++ rest) = scan .between rest := by
  induction w with
  | nil => rfl
  | cons c w ih =>
    rw [List.cons_append, scan, if_pos (h c List.mem_cons_self)]
    exact ih fun c' hc' => h c' (List.mem_cons_of_mem c hc')

section Before

variable {token : Token} {x y : Except Fault (List Token)} {later : List Token}

lemma cons_bind_eq_ok (h : (do return token :: (← x)) = .ok ts) :
    ∃ later, x = .ok later ∧ ts = token :: later := by
  obtain ⟨later, hlater, heq⟩ := Except.bind_eq_ok.1 h
  cases heq
  exact ⟨later, hlater, rfl⟩

lemma cons_bind_append (h : y = (later ++ ·) <$> x) :
    (do return token :: (← y)) = (token :: later ++ ·) <$> x := by
  rw [h]
  cases x <;> rfl

end Before

/-- **A scan that ends well** is between tokens at the next blank. -/
lemma scan_append {c : Char} (h : scan mode cs = .ok ts) (hc : isBlank c = true) :
    scan mode (cs ++ c :: rest) = (ts ++ ·) <$> scan .between rest := by
  induction cs generalizing mode ts with
  | nil =>
    cases mode with
    | between =>
      cases h
      rw [List.nil_append, scan, if_pos hc]
      exact (id_map (f := Except Fault) _).symm
    | word read =>
      cases h
      rw [List.nil_append, scan, if_pos hc]
      rfl
    -- a literal that is still open would have been a fault
    | literal read => cases h
  | cons c' cs ih =>
    cases mode with
    | between =>
      rw [scan] at h
      rw [List.cons_append, scan]
      split_ifs at h ⊢
      · exact ih h
      · exact ih h
      · exact ih h
    | word read =>
      rw [scan] at h
      rw [List.cons_append, scan]
      split_ifs at h ⊢
      · obtain ⟨later, hlater, rfl⟩ := cons_bind_eq_ok h
        exact cons_bind_append (ih hlater)
      · obtain ⟨later, hlater, rfl⟩ := cons_bind_eq_ok h
        exact cons_bind_append (ih hlater)
      · exact ih h
    | literal read =>
      rw [scan] at h
      rw [List.cons_append, scan]
      split_ifs at h ⊢
      · obtain ⟨later, hlater, rfl⟩ := cons_bind_eq_ok h
        exact cons_bind_append (ih hlater)
      · exact ih h

lemma tokens_append {a b w : String} (ha : tokens a = .ok ts) (hw : w ≠ "")
    (hblank : ∀ c ∈ w.toList, isBlank c = true) :
    tokens (a ++ w ++ b) = (ts ++ ·) <$> tokens b := by
  unfold tokens at ha ⊢
  rw [String.toList_append, String.toList_append, List.append_assoc]
  cases hlist : w.toList with
  | nil => exact absurd (String.toList_eq_nil_iff.1 hlist) hw
  | cons c w =>
    rw [hlist] at hblank
    rw [List.cons_append, scan_append ha (hblank c List.mem_cons_self),
      scan_blanks fun c' hc' => hblank c' (List.mem_cons_of_mem c hc')]

/-! ### Bytes -/

lemma append_bind_append {first later : Script} {x y : Except Fault Script}
    (h : y = (later.append ·) <$> x) :
    (do return first.append (← y)) = ((first.append later).append ·) <$> x := by
  rw [h]
  cases x with
  | error e => rfl
  | ok s' => exact congrArg Except.ok (Script.append_assoc first later s').symm

lemma assemble_append {pending : Option Opcode} (h : assemble t pending ts = .ok s) :
    assemble t pending (ts ++ ts') = (s.append ·) <$> assemble t none ts' := by
  induction ts generalizing pending s with
  | nil =>
    cases pending with
    | none =>
      cases h
      exact (id_map (f := Except Fault) _).symm
    | some op => cases h
  | cons token ts ih =>
    rw [assemble] at h
    rw [List.cons_append, assemble]
    obtain ⟨item, hitem, h⟩ := Except.bind_eq_ok.1 h
    rw [hitem, Except.ok_bind]
    cases pending with
    | none =>
      cases item with
      | opcode op word =>
        dsimp only at h ⊢
        split_ifs at h ⊢
        · exact ih h
        · obtain ⟨later, hlater, heq⟩ := Except.bind_eq_ok.1 h
          cases heq
          exact append_bind_append (ih hlater)
      | data b =>
        obtain ⟨later, hlater, heq⟩ := Except.bind_eq_ok.1 h
        cases heq
        exact append_bind_append (ih hlater)
    | some op =>
      cases item with
      | opcode op' word => cases h
      | data b =>
        obtain ⟨push, hpush, h⟩ := Except.bind_eq_ok.1 h
        obtain ⟨later, hlater, heq⟩ := Except.bind_eq_ok.1 h
        cases heq
        dsimp only
        rw [hpush, Except.ok_bind]
        exact append_bind_append (ih hlater)

end Text

namespace Script

variable {t : OpcodeTable} {a b w : String} {s s' : Script}

/-- **Behind a text that is read**, and a blank, any other is read as it is alone, or refused as it
is. -/
lemma ofText_append (ha : ofText t a = .ok s) (hw : w ≠ "")
    (hblank : ∀ c ∈ w.toList, isBlank c = true) :
    ofText t (a ++ w ++ b) = (s.append ·) <$> ofText t b := by
  obtain ⟨ts, htokens, hassemble⟩ := Except.bind_eq_ok.1 ha
  unfold ofText
  rw [Text.tokens_append htokens hw hblank]
  cases Text.tokens b with
  | error e => rfl
  | ok ts' => exact Text.assemble_append hassemble

/-- **Two texts with blanks between them** are read if each is, and give the bytes of the first and
then those of the second. -/
theorem ofText_joined (ha : ofText t a = .ok s) (hb : ofText t b = .ok s') (hw : w ≠ "")
    (hblank : ∀ c ∈ w.toList, isBlank c = true) :
    ∃ joined, ofText t (a ++ w ++ b) = .ok joined ∧ joined.bytes = s.bytes ++ s'.bytes := by
  refine ⟨s.append s', ?_, rfl⟩
  rw [ofText_append ha hw hblank, hb]
  rfl

theorem ofText_joined_literals :
    ofText .timeLocked "DUP OP_PUSHDATA1 \"a b\"" = .ok ⟨[0x76, 0x4c, 3, 0x61, 0x20, 0x62]⟩ ∧
    ofText .timeLocked "OP_PUSHDATA2\n0xff 5" = .ok ⟨[0x4d, 1, 0, 0xff, 1, 5]⟩ ∧
    ∃ joined, ofText .timeLocked ("DUP OP_PUSHDATA1 \"a b\"" ++ "\t\n" ++ "OP_PUSHDATA2\n0xff 5") =
        .ok joined ∧
      joined.bytes = [0x76, 0x4c, 3, 0x61, 0x20, 0x62] ++ [0x4d, 1, 0, 0xff, 1, 5] := by
  have ha : ofText .timeLocked "DUP OP_PUSHDATA1 \"a b\"" =
      .ok ⟨[0x76, 0x4c, 3, 0x61, 0x20, 0x62]⟩ := rfl
  have hb : ofText .timeLocked "OP_PUSHDATA2\n0xff 5" = .ok ⟨[0x4d, 1, 0, 0xff, 1, 5]⟩ := rfl
  have hblank : "\t\n".toList.all isBlank = true := by decide
  exact ⟨ha, hb, ofText_joined ha hb (by decide) (List.all_eq_true.1 hblank)⟩

end Script

end CoinScript
