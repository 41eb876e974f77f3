import CoinScript.Proofs.Opcode.Renaming
import CoinScript.Proofs.Script.Tokens

/-!
Decimal numbers that stand alone as text.

A number is looked up as a mnemonic first. No standard mnemonic is taken for one, whatever opcodes
have been renamed, because the check looks at the opcode that is found. But a rename that gives an
opcode a number for its mnemonic takes the number away from the literals, unless that opcode pushes
a number itself and there is no minus sign.
-/

namespace CoinScript

open OpcodeTable

variable {cs : List Char} {c : Char} {t : OpcodeTable} {op : Opcode}
  {rs : List (Opcode × String)}

namespace Text

/-! ### The characters of a number -/

lemma exists_of_isDecimal (h : isDecimal cs = true) : ∃ c digits, cs = c :: digits ∧
    (c = '-' ∨ c.isDigit = true) ∧ ∀ d ∈ digits, d.isDigit = true := by
  cases cs with
  | nil => cases h
  | cons c digits =>
    refine ⟨c, digits, rfl, ?_⟩
    by_cases hminus : c = '-'
    · subst hminus
      simp only [isDecimal, Bool.and_eq_true, List.all_eq_true] at h
      exact ⟨.inl rfl, h.2⟩
    · unfold isDecimal at h
      split at h
      · rename_i heq
        exact absurd (List.cons.inj heq).1 hminus
      · simp only [Bool.and_eq_true, List.all_eq_true, List.forall_mem_cons] at h
        exact ⟨.inr h.2.1, h.2.2⟩

lemma decimalChar_spec (h : c = '-' ∨ c.isDigit = true) :
    (isBlank c = false ∧ c ≠ '"') ∧ c.toUpper = c ∧ c ≠ 'O' := by
  rcases h with rfl | hdigit
  · decide
  · have hplain : Mnemonic.isPlainChar c = true := by simp [Mnemonic.isPlainChar, hdigit]
    refine ⟨Mnemonic.isWord_of_isPlainChar hplain, Mnemonic.toUpper_of_isPlainChar hplain, ?_⟩
    rintro rfl
    exact absurd hdigit (by decide)

lemma decimalChar_of_mem (h : isDecimal cs = true) (hc : c ∈ cs) : c = '-' ∨ c.isDigit = true := by
  obtain ⟨d, digits, rfl, hd, hdigits⟩ := exists_of_isDecimal h
  rcases List.mem_cons.1 hc with rfl | hc
  · exact hd
  · exact .inr (hdigits c hc)

lemma tokens_decimal (h : isDecimal cs = true) :
    tokens (String.ofList cs) = .ok [.word cs] := by
  have hword : IsWord cs := by
    refine ⟨?_, fun c hc => (decimalChar_spec (decimalChar_of_mem h hc)).1⟩
    rintro rfl
    cases h
  have hscan := scan_token (t := .word cs) hword parted_nil
  rw [List.append_nil] at hscan
  rw [tokens, String.toList_ofList]
  exact hscan

lemma literalBytes_decimal (h : isDecimal cs = true) :
    literalBytes cs = .ok (Number.encode (decimalValue cs)) := by
  obtain ⟨d, digits, rfl, -, hdigits⟩ := exists_of_isDecimal h
  unfold literalBytes
  split
  · rename_i heq
    rw [(List.cons.inj heq).2] at hdigits
    exact absurd (hdigits 'x' List.mem_cons_self) (by decide)
  · rename_i heq
    rw [(List.cons.inj heq).2] at hdigits
    exact absurd (hdigits 'X' List.mem_cons_self) (by decide)
  · exact if_pos h

end Text

/-! ### Numbers as mnemonics -/

namespace Mnemonic

open Text

lemma upperCase_decimal (h : isDecimal cs = true) :
    upperCase (String.ofList cs) = String.ofList cs := by
  rw [← String.toList_inj, toList_upperCase, String.toList_ofList]
  refine (List.map_congr_left fun c hc => ?_).trans (List.map_id cs)
  exact (decimalChar_spec (decimalChar_of_mem h hc)).2.1

lemma isLed_decimal (h : isDecimal cs = true) : isLed (String.ofList cs) = false := by
  obtain ⟨d, digits, rfl, hd, -⟩ := exists_of_isDecimal h
  have hne := (decimalChar_spec hd).2.2
  rw [isLed, String.toList_ofList, lead, List.isPrefixOf_cons_cons, beq_eq_false_iff_ne.2 hne.symm]
  rfl

lemma normalize_decimal (h : isDecimal cs = true) :
    Mnemonic.normalize (String.ofList cs) = "OP_" ++ String.ofList cs := by
  unfold Mnemonic.normalize
  simp only [upperCase_decimal h, isLed_decimal h, Bool.false_eq_true, if_false]

lemma isBare_decimal (h : isDecimal cs = true) :
    isBare (String.ofList cs) = true ↔ cs.head? ≠ some '-' := by
  obtain ⟨d, digits, rfl, hd, -⟩ := exists_of_isDecimal h
  rw [isBare, upperCase_decimal h, isLed_decimal h, String.toList_ofList]
  simp only [Bool.not_false, Bool.true_and, List.head?_cons, Option.any_some, ne_eq,
    Option.some.injEq]
  constructor
  · rintro hdigit rfl
    exact absurd hdigit (by decide)
  · exact fun hne => hd.resolve_left hne

lemma toList_led (cs : List Char) : ("OP_" ++ String.ofList cs).toList = lead ++ cs := by
  rw [String.toList_append, String.toList_ofList, String.toList_ofList]
  rfl

lemma unknown?_decimal (h : isDecimal cs = true) : unknown? ("OP_" ++ String.ofList cs) = none := by
  obtain ⟨d, digits, rfl, hd, -⟩ := exists_of_isDecimal h
  have hne : 'U' ≠ d := by
    rintro rfl
    exact absurd hd (by decide)
  have hlead : unknownLead.toList = lead ++ ['U', 'N', 'K', 'N', 'O', 'W', 'N'] := rfl
  rw [unknown?, toList_led, hlead, lead]
  simp [List.isPrefixOf, hne]

end Mnemonic

namespace OpcodeTable

open Text Mnemonic

set_option maxRecDepth 10000 in
lemma numericPush_of_mem_values : ∀ p ∈ standard.values, isDecimal (p.1.toList.drop 3) = true →
    p.2.isNumericPush = true ∧ p.1.toList[3]? ≠ some '-' := by
  decide

lemma value?_decimal_of_not_given (h : isDecimal cs = true)
    (hgiven : given? rs ("OP_" ++ String.ofList cs) = none) :
    (standard.renameAll rs).value? (String.ofList cs) = none := by
  by_contra hsome
  obtain ⟨op, hop⟩ := Option.ne_none_iff_exists'.1 hsome
  obtain ⟨hresolve, hbare⟩ := value?_eq_some.1 hop
  rw [normalize_decimal h, resolve?, lookup_renameAll, hgiven, Option.none_or,
    unknown?_decimal h] at hresolve
  cases hlookup : standard.values.lookup ("OP_" ++ String.ofList cs) with
  | none =>
    rw [hlookup] at hresolve
    cases hresolve
  | some op' =>
    rw [hlookup] at hresolve
    cases hresolve
    -- a standard mnemonic that is a number denotes the push of one, and that stays a literal
    have hspec := numericPush_of_mem_values _ (mem_of_lookup hlookup)
    rw [toList_led] at hspec
    obtain ⟨hnumeric, hminus⟩ := hspec h
    refine hbare ⟨(isBare_decimal h).2 ?_, hnumeric⟩
    rwa [List.head?_eq_getElem?]

/-- **What a number names**: what it was last given to, but for pushes of numbers where it has no
minus sign. -/
lemma value?_decimal (h : isDecimal cs = true) :
    (standard.renameAll rs).value? (String.ofList cs) = some op ↔
      given? rs ("OP_" ++ String.ofList cs) = some op ∧
        ¬ (cs.head? ≠ some '-' ∧ op.isNumericPush = true) := by
  cases hgiven : given? rs ("OP_" ++ String.ofList cs) with
  | none => simp [value?_decimal_of_not_given h hgiven]
  | some op' =>
    rw [value?_eq_some, normalize_decimal h, resolve?_of_given hgiven, isBare_decimal h]

end OpcodeTable

/-! ### Numbers as text -/

namespace Script

open Text Mnemonic

lemma ofText_word (h : isDecimal cs = true) : ofText t (String.ofList cs) =
    match t.value? (String.ofList cs) with
    | none => .ok (Script.empty.pushInt (decimalValue cs))
    | some op =>
      if op.isPushData then .error (.parse (.missingPushData (t.name op))) else .ok ⟨[op]⟩ := by
  have hitem : Item.ofToken t (.word cs) = match t.value? (String.ofList cs) with
      | none => .ok (.data (Number.encode (decimalValue cs)))
      | some op => .ok (.opcode op cs) := by
    rw [Item.ofToken, literalBytes_decimal h]
    cases t.value? (String.ofList cs) <;> rfl
  rw [ofText, tokens_decimal h, Except.ok_bind, assemble, hitem]
  cases t.value? (String.ofList cs) with
  | none =>
    simp only [Except.ok_bind, assemble]
    rw [append, pushInt, Script.empty, List.append_nil]
    rfl
  | some op =>
    simp only [Except.ok_bind]
    split
    · rfl
    · rfl

lemma pushInt_eq_iff {v : Int} :
    Script.empty.pushInt v = ⟨[op]⟩ ↔ op = Opcode.push0 ∧ v = 0 := by
  constructor
  · intro h
    have hbytes : Instruction.encodePush (Opcode.canonicalPush (Number.encode v).length)
        (Number.encode v) = [op] := congrArg Script.bytes h
    obtain ⟨hop, hrest⟩ := List.cons.inj hbytes
    have hdata : Number.encode v = [] := (List.append_eq_nil_iff.1 hrest).2
    have hwidth : Number.width v.natAbs = 0 := by
      have hlen := congrArg List.length hdata
      rwa [Number.encode, Bytes.length_ofNatLE] at hlen
    have hzero : v.natAbs = 0 := by
      by_contra hne
      simp [Number.width, hne] at hwidth
    rw [hdata] at hop
    exact ⟨hop.symm, Int.natAbs_eq_zero.1 hzero⟩
  · rintro ⟨rfl, rfl⟩
    rfl

/-- **Numbers that stay literals.** After any renames of the standard table a number that stands
alone is the push of its value exactly if no opcode has been given it for a mnemonic, or one that
pushes a number has and the number has no minus sign, or it is zero and the push of no bytes has.
Otherwise it is the opcode that was given it last, or lacks the data if that has a length behind
it. -/
theorem ofText_decimal (rs : List (Opcode × String)) (h : isDecimal cs = true) :
    (ofText (standard.renameAll rs) (String.ofList cs) =
        .ok (Script.empty.pushInt (decimalValue cs)) ↔
      ∀ op, given? rs ("OP_" ++ String.ofList cs) = some op →
        (cs.head? ≠ some '-' ∧ op.isNumericPush = true) ∨
          (op = Opcode.push0 ∧ decimalValue cs = 0)) ∧
    ∀ op, given? rs ("OP_" ++ String.ofList cs) = some op →
      ¬ (cs.head? ≠ some '-' ∧ op.isNumericPush = true) →
      ofText (standard.renameAll rs) (String.ofList cs) =
        if op.isPushData then
          .error (.parse (.missingPushData ((standard.renameAll rs).name op)))
        else .ok ⟨[op]⟩ := by
  rw [ofText_word h]
  cases hvalue : (standard.renameAll rs).value? (String.ofList cs) with
  | none =>
    -- a name that was given and yet denotes nothing was given to the push of a number
    have hliteral : ∀ op, given? rs ("OP_" ++ String.ofList cs) = some op →
        cs.head? ≠ some '-' ∧ op.isNumericPush = true := by
      intro op hgiven
      by_contra hnumeric
      rw [(value?_decimal h).2 ⟨hgiven, hnumeric⟩] at hvalue
      cases hvalue
    exact ⟨iff_of_true rfl fun op hgiven => .inl (hliteral op hgiven),
      fun op hgiven hnumeric => absurd (hliteral op hgiven) hnumeric⟩
  | some op =>
    obtain ⟨hgiven, hnumeric⟩ := (value?_decimal h).1 hvalue
    rw [hgiven]
    simp only [Option.some.injEq, forall_eq', hnumeric, false_or, not_false_eq_true, forall_const,
      and_true]
    rw [← pushInt_eq_iff]
    cases hop : op.isPushData with
    | false => simp [eq_comm]
    | true =>
      refine iff_of_false (by simp) fun heq => ?_
      rw [(pushInt_eq_iff.1 heq).1] at hop
      cases hop

def numbered : List (Opcode × String) :=
  [(Opcode.op1, "42"), (0x76, "43"), (Opcode.push1, "-5")]

theorem ofText_decimal_numbered :
    isDecimal ['4', '2'] = true ∧ isDecimal ['4', '3'] = true ∧ isDecimal ['-', '5'] = true ∧
    ofText (standard.renameAll numbered) (String.ofList ['4', '2']) =
      .ok (Script.empty.pushInt 42) ∧
    ofText (standard.renameAll numbered) (String.ofList ['4', '3']) = .ok ⟨[0x76]⟩ ∧
    ofText (standard.renameAll numbered) (String.ofList ['-', '5']) =
      .error (.parse (.missingPushData "OP_-5")) := by
  have h42 : isDecimal ['4', '2'] = true := rfl
  have h43 : isDecimal ['4', '3'] = true := rfl
  have h5 : isDecimal ['-', '5'] = true := rfl
  have hone : given? numbered ("OP_" ++ String.ofList ['4', '2']) = some Opcode.op1 := by
    decide +kernel
  have hduplicate : given? numbered ("OP_" ++ String.ofList ['4', '3']) = some 0x76 := by
    decide +kernel
  have hpush : given? numbered ("OP_" ++ String.ofList ['-', '5']) = some Opcode.push1 := by
    decide +kernel
  have hname : (standard.renameAll numbered).name Opcode.push1 = "OP_-5" := by decide +kernel
  refine ⟨h42, h43, h5, (ofText_decimal numbered h42).1.2 fun op hop => .inl ?_,
    (ofText_decimal numbered h43).2 _ hduplicate (by decide), ?_⟩
  · rw [hone] at hop
    cases hop
    decide
  · rw [(ofText_decimal numbered h5).2 _ hpush (by decide), hname]
    rfl

/-- **A number that is no literal**: an opcode has been given it for a mnemonic. -/
theorem ofText_numbered : isDecimal ['4', '2'] = true ∧
    ofText (standard.rename 0x76 "42") (String.ofList ['4', '2']) = .ok ⟨[0x76]⟩ ∧
    Script.empty.pushInt (decimalValue ['4', '2']) = ⟨[0x01, 0x2a]⟩ := by
  refine ⟨rfl, ?_, ?_⟩
  · decide +kernel
  · decide +kernel

end Script

end CoinScript
