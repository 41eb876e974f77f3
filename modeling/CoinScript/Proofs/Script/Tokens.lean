import CoinScript.Proofs.Except
import CoinScript.Proofs.Opcode.Mnemonics

/-!
Tokens as they are written, and read back.

A word is written as it is and a string literal between quotes. Wherever a blank or the end
follows, that scans as the same token. Data is written as a token that denotes it.
-/

namespace CoinScript

namespace Text

/-! ### Scanning -/

namespace Token

def write : Token → List Char
  | word cs => cs
  | literal cs => '"' :: (cs ++ ['"'])

/-- Whether a token is what it scans as when it is written. -/
def IsProper : Token → Prop
  | word cs => IsWord cs
  | literal cs => '"' ∉ cs

end Token

variable {cs read rest : List Char}

/-- Text that a token may stand in front of: none, or some that starts with a blank. -/
def Parted (rest : List Char) : Prop := ∀ c ∈ rest.head?, isBlank c = true

lemma scan_word_append (h : ∀ c ∈ cs, isBlank c = false ∧ c ≠ '"') :
    scan (.word read) (cs ++ rest) = scan (.word (cs.reverse ++ read)) rest := by
  induction cs generalizing read with
  | nil => rfl
  | cons c cs ih =>
    obtain ⟨hblank, hquote⟩ := h c List.mem_cons_self
    rw [List.cons_append, scan, hblank, if_neg Bool.false_ne_true, if_neg hquote,
      ih fun c hc => h c (List.mem_cons_of_mem _ hc), List.reverse_cons, List.append_assoc]
    rfl

lemma scan_word_end (h : Parted rest) :
    scan (.word read) rest = (.word read.reverse :: ·) <$> scan .between rest := by
  cases rest with
  | nil => rfl
  | cons c rest =>
    have hblank : isBlank c = true := h c rfl
    rw [scan, scan, if_pos hblank, if_pos hblank]
    rfl

lemma scan_literal_append (h : '"' ∉ cs) : scan (.literal read) (cs ++ '"' :: rest) =
    (.literal (read.reverse ++ cs) :: ·) <$> scan .between rest := by
  induction cs generalizing read with
  | nil =>
    rw [List.nil_append, scan, if_pos rfl, List.append_nil]
    rfl
  | cons c cs ih =>
    obtain ⟨hquote, hrest⟩ := not_or.1 (mt List.mem_cons.2 h)
    rw [List.cons_append, scan, if_neg (Ne.symm hquote), ih hrest, List.reverse_cons,
      List.append_assoc]
    rfl

lemma scan_token {t : Token} (h : t.IsProper) (hrest : Parted rest) :
    scan .between (t.write ++ rest) = (t :: ·) <$> scan .between rest := by
  cases t with
  | word cs =>
    obtain ⟨hne, hword⟩ := h
    cases cs with
    | nil => exact absurd rfl hne
    | cons c cs =>
      obtain ⟨hblank, hquote⟩ := hword c List.mem_cons_self
      rw [Token.write, List.cons_append, scan, hblank, if_neg Bool.false_ne_true, if_neg hquote,
        scan_word_append fun c hc => hword c (List.mem_cons_of_mem _ hc), scan_word_end hrest,
        List.reverse_append, List.reverse_reverse]
      rfl
  | literal cs =>
    have hquote : isBlank '"' = false := by decide
    rw [Token.write, List.cons_append, List.append_assoc, scan, hquote, if_neg Bool.false_ne_true,
      if_pos rfl, List.singleton_append, scan_literal_append h]
    rfl

lemma scan_blank (rest : List Char) : scan .between (' ' :: rest) = scan .between rest := rfl

lemma parted_nil : Parted [] := by
  intro c hc
  cases hc

lemma parted_blank (rest : List Char) : Parted (' ' :: rest) := by
  intro c hc
  cases hc
  rfl

/-! ### Digits -/

lemma digit_spec : ∀ n < 16,
    String.utf8EncodeChar (Hex.digit n) = [UInt8.ofNat (Hex.digit n).toNat] ∧
      Hex.digitValue? (UInt8.ofNat (Hex.digit n).toNat) = some n ∧
      isBlank (Hex.digit n) = false ∧ Hex.digit n ≠ '"' := by
  decide

lemma utf8_append (cs cs' : List Char) : utf8 (cs ++ cs') = utf8 cs ++ utf8 cs' :=
  List.flatMap_append

lemma decodePairs_encodeByte (b : UInt8) (position : Nat) (rest : Bytes) :
    Hex.decodePairs position (utf8 (Hex.encodeByte b) ++ rest) =
      (b :: ·) <$> Hex.decodePairs (position + 2) rest := by
  have hb := b.toNat_lt
  obtain ⟨hhi, hhi', -⟩ := digit_spec (b.toNat / 16) (by omega)
  obtain ⟨hlo, hlo', -⟩ := digit_spec (b.toNat % 16) (by omega)
  have hvalue : UInt8.ofNat (16 * (b.toNat / 16) + b.toNat % 16) = b := by
    rw [Nat.div_add_mod, UInt8.ofNat_toNat]
  unfold utf8 Hex.encodeByte
  rw [List.flatMap_cons, List.flatMap_cons, hhi, hlo]
  change Hex.decodePairs position (_ :: _ :: rest) = _
  rw [Hex.decodePairs, Hex.decodeDigit, Hex.decodeDigit, hhi', hlo']
  simp only [Except.ok_bind, hvalue]
  rfl

lemma decode_encodeChars (b : Bytes) : Hex.decode (utf8 (Hex.encodeChars b)) = .ok b := by
  -- the position is only told in faults, and moves by two with each byte
  have hpairs (position : Nat) : Hex.decodePairs position (utf8 (Hex.encodeChars b)) = .ok b ∧
      (utf8 (Hex.encodeChars b)).length = 2 * b.length := by
    induction b generalizing position with
    | nil => exact ⟨rfl, rfl⟩
    | cons x b ih =>
      obtain ⟨hdecode, hlen⟩ := ih (position + 2)
      have hx := x.toNat_lt
      obtain ⟨hhi, -⟩ := digit_spec (x.toNat / 16) (by omega)
      obtain ⟨hlo, -⟩ := digit_spec (x.toNat % 16) (by omega)
      have htwo : (utf8 (Hex.encodeByte x)).length = 2 := by
        unfold utf8 Hex.encodeByte
        rw [List.flatMap_cons, List.flatMap_cons, hhi, hlo]
        rfl
      rw [Hex.encodeChars, List.flatMap_cons, utf8_append, decodePairs_encodeByte]
      refine ⟨?_, ?_⟩
      · rw [← Hex.encodeChars, hdecode]
        rfl
      · rw [List.length_append, htwo, ← Hex.encodeChars, hlen, List.length_cons]
        omega
  obtain ⟨hdecode, hlen⟩ := hpairs 0
  unfold Hex.decode
  rw [if_neg (by omega), hdecode]

lemma isWord_encodeChars (b : Bytes) :
    ∀ c ∈ Hex.encodeChars b, isBlank c = false ∧ c ≠ '"' := by
  intro c hc
  obtain ⟨x, -, hc⟩ := List.mem_flatMap.1 hc
  have hx := x.toNat_lt
  have hhi := digit_spec (x.toNat / 16) (by omega)
  have hlo := digit_spec (x.toNat % 16) (by omega)
  unfold Hex.encodeByte at hc
  rw [List.mem_pair] at hc
  rcases hc with rfl | rfl
  · exact hhi.2.2
  · exact hlo.2.2

/-! ### Data -/

def Token.ofData (b : Bytes) : Token :=
  if isPrintable b then .literal (b.map fun x => Char.ofNat x.toNat)
  else .word ('0' :: 'x' :: Hex.encodeChars b)

lemma toList_renderLiteral (b : Bytes) : (renderLiteral b).toList = (Token.ofData b).write := by
  unfold renderLiteral Token.ofData
  cases isPrintable b with
  | true => simp [Token.write]
  | false => simp [Token.write, Hex.encode]

set_option maxRecDepth 10000 in
lemma printable_spec : ∀ x : UInt8, (32 ≤ x && x < 127 && x != 34) = true →
    String.utf8EncodeChar (Char.ofNat x.toNat) = [x] ∧ Char.ofNat x.toNat ≠ '"' := by
  decide

lemma isPrintable_iff {b : Bytes} : isPrintable b = true ↔
    b ≠ [] ∧ ∀ x ∈ b, (32 ≤ x && x < 127 && x != 34) = true := by
  simp [isPrintable]

lemma isProper_ofData (b : Bytes) : (Token.ofData b).IsProper := by
  unfold Token.ofData
  cases hb : isPrintable b with
  | true =>
    obtain ⟨-, hbytes⟩ := isPrintable_iff.1 hb
    intro hquote
    obtain ⟨x, hx, hx'⟩ := List.mem_map.1 hquote
    exact (printable_spec x (hbytes x hx)).2 hx'
  | false =>
    refine ⟨List.cons_ne_nil _ _, fun c hc => ?_⟩
    rcases List.mem_cons.1 hc with rfl | hc
    · decide
    · rcases List.mem_cons.1 hc with rfl | hc
      · decide
      · exact isWord_encodeChars b c hc

lemma ofToken_ofData {t : OpcodeTable} (h : t.Legible) (b : Bytes) :
    Item.ofToken t (.ofData b) = .ok (.data b) := by
  unfold Token.ofData
  cases hb : isPrintable b with
  | true =>
    obtain ⟨-, hbytes⟩ := isPrintable_iff.1 hb
    have hutf8 : utf8 (b.map fun x => Char.ofNat x.toNat) = b := by
      unfold utf8
      rw [List.flatMap_map, List.flatMap_congr fun x hx => (printable_spec x (hbytes x hx)).1,
        List.flatMap_singleton']
    simp only [if_true, Item.ofToken, hutf8]
  | false =>
    have hliteral : literalBytes ('0' :: 'x' :: Hex.encodeChars b) = .ok b := by
      unfold literalBytes
      simp only [decode_encodeChars]
    simp only [Bool.false_eq_true, if_false, Item.ofToken, h.value?_hex, hliteral]
    rfl

end Text

end CoinScript
