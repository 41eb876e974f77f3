import Mathlib
import CoinScript.Script.Text

/-!
Tables whose mnemonics can be read back.

A table that starts out as the standard one and is renamed with care resolves the name it writes
for an opcode to that opcode, takes no hexadecimal literal for a mnemonic, and writes names that
stand in text as single words. Care means that a new mnemonic is such a word, does not look like
a hexadecimal literal, and names no other opcode yet.
-/

namespace CoinScript

/-- Whether characters stand together as a word of text. -/
def Text.IsWord (cs : List Char) : Prop := cs ≠ [] ∧ ∀ c ∈ cs, isBlank c = false ∧ c ≠ '"'

lemma toList_upperCase (s : String) : (upperCase s).toList = s.toList.map Char.toUpper :=
  String.toList_ofList

namespace Mnemonic

variable {name s : String} {c : Char}

/-! ### Characters -/

def isPlainChar (c : Char) : Bool := c.isUpper || c.isDigit || c == '_'

lemma isPlainChar_iff : isPlainChar c = true ↔
    (65 ≤ c.toNat ∧ c.toNat ≤ 90) ∨ (48 ≤ c.toNat ∧ c.toNat ≤ 57) ∨ c.toNat = 95 := by
  unfold isPlainChar Char.isUpper Char.isDigit
  simp only [Bool.or_eq_true, Bool.and_eq_true, decide_eq_true_eq, beq_iff_eq, ← Char.toNat_inj,
    ge_iff_le, UInt32.le_iff_toNat_le]
  change ((65 ≤ c.toNat ∧ c.toNat ≤ 90) ∨ 48 ≤ c.toNat ∧ c.toNat ≤ 57) ∨ c.toNat = 95 ↔ _
  omega

lemma toUpper_of_isPlainChar (h : isPlainChar c = true) : c.toUpper = c := by
  rw [isPlainChar_iff] at h
  refine Char.toUpper_eq_of_not_isLower ?_
  unfold Char.isLower
  simp only [Bool.and_eq_true, decide_eq_true_eq, ge_iff_le, UInt32.le_iff_toNat_le]
  change ¬ (97 ≤ c.toNat ∧ c.toNat ≤ 122)
  omega

lemma isWord_of_isPlainChar (h : isPlainChar c = true) : isBlank c = false ∧ c ≠ '"' := by
  rw [isPlainChar_iff] at h
  refine ⟨?_, ?_⟩
  · unfold isBlank
    simp only [Bool.or_eq_false_iff, Bool.and_eq_false_iff, decide_eq_false_iff_not,
      beq_eq_false_iff_ne]
    omega
  · rintro rfl
    change (65 ≤ 34 ∧ _) ∨ (48 ≤ 34 ∧ _) ∨ 34 = 95 at h
    omega

/-! ### The form in which mnemonics are kept -/

/-- Whether a mnemonic is in upper case and starts with `OP_`. -/
def IsNormal (name : String) : Prop := upperCase name = name ∧ isLed name = true

lemma IsNormal.normalize_eq (h : IsNormal name) : normalize name = name := by
  unfold normalize
  simp only [h.1, h.2, if_true]

lemma isNormal_normalize (s : String) : IsNormal (normalize s) := by
  have hupper : (upperCase s).toList.map Char.toUpper = (upperCase s).toList := by
    simp [toList_upperCase]
  unfold normalize
  by_cases hled : isLed (upperCase s) = true
  · simp only [hled, if_true]
    exact ⟨by rw [← String.toList_inj, toList_upperCase, hupper], hled⟩
  · simp only [hled, if_false, Bool.false_eq_true]
    refine ⟨?_, ?_⟩
    · rw [← String.toList_inj, toList_upperCase, String.toList_append, List.map_append, hupper]
      rfl
    · rw [isLed, String.toList_append]
      rfl

lemma isNormal_of_isPlainChar (hplain : ∀ c ∈ name.toList, isPlainChar c = true)
    (hled : isLed name = true) : IsNormal name := by
  refine ⟨?_, hled⟩
  rw [← String.toList_inj, toList_upperCase]
  exact (List.map_congr_left fun c hc => toUpper_of_isPlainChar (hplain c hc)).trans
    (List.map_id' _)

/-! ### Names of unnamed opcodes -/

def ofUnnamed (op : Opcode) : String := unknownLead ++ toString op.toNat

variable {op : Opcode}

lemma toList_ofUnnamed (op : Opcode) :
    (ofUnnamed op).toList = unknownLead.toList ++ Nat.toDigits 10 op.toNat := by
  rw [ofUnnamed, String.toList_append]
  congr 1
  exact Nat.toList_repr

lemma isPlainChar_ofUnnamed (op : Opcode) : ∀ c ∈ (ofUnnamed op).toList, isPlainChar c = true := by
  intro c hc
  rw [toList_ofUnnamed] at hc
  rcases List.mem_append.1 hc with hc | hc
  · have hlead : unknownLead.toList.all isPlainChar = true := rfl
    exact List.all_eq_true.1 hlead c hc
  · have hdigit := Nat.isDigit_of_mem_toDigits (by decide) (by decide) hc
    simp [isPlainChar, hdigit]

lemma isNormal_ofUnnamed (op : Opcode) : IsNormal (ofUnnamed op) := by
  refine isNormal_of_isPlainChar (isPlainChar_ofUnnamed op) ?_
  rw [isLed, toList_ofUnnamed]
  rfl

lemma byte?_toDigits (op : Opcode) : byte? (Nat.toDigits 10 op.toNat) = some op := by
  have hdigits : ∀ c ∈ Nat.toDigits 10 op.toNat, c.isDigit = true :=
    fun c hc => Nat.isDigit_of_mem_toDigits (by decide) (by decide) hc
  have hne : Nat.toDigits 10 op.toNat ≠ [] := List.ne_nil_of_length_pos Nat.length_toDigits_pos
  have hvalue : (Nat.toDigits 10 op.toNat).foldl (fun n c => 10 * n + (c.toNat - 48)) 0 =
      op.toNat := Nat.ofDigitChars_toDigits (by decide) (by decide)
  generalize Nat.toDigits 10 op.toNat = cs at hdigits hne hvalue
  have hplus : ∀ rest, cs ≠ '+' :: rest := by
    rintro rest rfl
    exact absurd (hdigits '+' List.mem_cons_self) (by decide)
  have hall : cs.all Char.isDigit = true := List.all_eq_true.2 hdigits
  unfold byte?
  split
  · exact absurd rfl (hplus _)
  · rw [if_pos ⟨hne, hall⟩]
    simp only [hvalue, UInt8.toNat_lt op, if_true, UInt8.ofNat_toNat]

lemma unknown?_ofUnnamed (op : Opcode) : unknown? (ofUnnamed op) = some op := by
  unfold unknown?
  rw [toList_ofUnnamed, if_pos (List.isPrefixOf_iff_prefix.2 (List.prefix_append _ _))]
  exact byte?_toDigits op

/-! ### Mnemonics that may be given -/

/-- What a hexadecimal literal starts with once it is taken for a mnemonic. -/
def hexLead : List Char := ['O', 'P', '_', '0', 'X']

/-- Whether a mnemonic stands in text as a word that is no hexadecimal literal. -/
structure IsPlain (name : String) : Prop where
  word : ∀ c ∈ name.toList, isBlank c = false ∧ c ≠ '"'
  notHex : ¬ hexLead <+: name.toList

lemma isPlain_iff : IsPlain name ↔
    (name.toList.all fun c => !isBlank c && c != '"') = true ∧ ¬ hexLead <+: name.toList := by
  simp only [List.all_eq_true, Bool.and_eq_true, Bool.not_eq_true', bne_iff_ne]
  exact ⟨fun h => ⟨h.word, h.notHex⟩, fun h => ⟨h.1, h.2⟩⟩

instance : Decidable (IsPlain name) := decidable_of_iff' _ isPlain_iff

end Mnemonic

namespace OpcodeTable

open Mnemonic

variable {t : OpcodeTable} {op : Opcode} {name : String}

/-! ### Association lists -/

lemma lookup_cons_eq {α β : Type} [DecidableEq α] {a a' : α} {b : β} {entries : List (α × β)} :
    ((a', b) :: entries).lookup a = if a = a' then some b else entries.lookup a := by
  rw [List.lookup_cons]
  by_cases h : a = a'
  · rw [if_pos h, beq_iff_eq.2 h]
  · rw [if_neg h, beq_eq_false_iff_ne.2 h]

lemma mem_of_lookup {α β : Type} [DecidableEq α] {a : α} {b : β} {entries : List (α × β)}
    (h : entries.lookup a = some b) : (a, b) ∈ entries := by
  obtain ⟨before, after, rfl, -⟩ := List.lookup_eq_some_iff.1 h
  exact List.mem_append_right before List.mem_cons_self

lemma lookup_of_mem {α β : Type} [DecidableEq α] {a : α} {b : β} {entries : List (α × β)}
    (hnodup : (entries.map Prod.fst).Nodup) (h : (a, b) ∈ entries) :
    entries.lookup a = some b := by
  induction entries with
  | nil => exact (List.not_mem_nil h).elim
  | cons p entries ih =>
    rw [List.map_cons, List.nodup_cons] at hnodup
    obtain ⟨hfresh, hnodup⟩ := hnodup
    rw [lookup_cons_eq]
    rcases List.mem_cons.1 h with rfl | h
    · exact if_pos rfl
    · rw [if_neg]
      · exact ih hnodup h
      · rintro rfl
        exact hfresh (List.mem_map.2 ⟨_, h, rfl⟩)

/-! ### Tables renamed with care -/

/-- Whether an opcode may be given a mnemonic: a plain one that names no other opcode by now. -/
structure MayName (t : OpcodeTable) (op : Opcode) (name : String) : Prop where
  plain : IsPlain (Mnemonic.normalize name)
  free : ∀ op', t.value? (Mnemonic.normalize name) = some op' → op' = op

instance : Decidable (t.MayName op name) :=
  decidable_of_iff (IsPlain (Mnemonic.normalize name) ∧
      (t.value? (Mnemonic.normalize name)).all (· == op) = true)
    ⟨fun h => ⟨h.1, fun op' hop' => beq_iff_eq.1 ((Option.all_eq_true _ _).1 h.2 op' hop')⟩,
      fun h => ⟨h.plain,
        (Option.all_eq_true _ _).2 fun op' hop' => beq_iff_eq.2 (h.free op' hop')⟩⟩

/-- Tables that come about from the standard one, renamed with care. -/
inductive Careful : OpcodeTable → Prop
  | standard : Careful standard
  | setDisabled {t : OpcodeTable} (ops : List Opcode) : Careful t → Careful (t.setDisabled ops)
  | register {t : OpcodeTable} (op : Opcode) (h : Handler) : Careful t → Careful (t.register op h)
  | rename {t : OpcodeTable} {op : Opcode} {name : String} :
      Careful t → t.MayName op name → Careful (t.rename op name)

/-- What makes the names that a table writes readable. -/
structure Legible (t : OpcodeTable) : Prop where
  named : ∀ op name, t.name? op = some name →
    t.values.lookup name = some op ∧ IsNormal name ∧ ∀ c ∈ name.toList, isBlank c = false ∧ c ≠ '"'
  unnamed : ∀ op, t.name? op = none → t.values.lookup (ofUnnamed op) = none
  notHex : ∀ name op, t.values.lookup name = some op → ¬ hexLead <+: name.toList

lemma value?_of_isNormal (h : IsNormal name) : t.value? name = t.resolve? name := by
  unfold value?
  rw [h.normalize_eq]
  cases t.resolve? name with
  | none => rfl
  | some op => simp only [h.1, h.2, Bool.not_true, Bool.false_and, Bool.false_eq_true, if_false]

lemma resolve?_of_lookup (h : t.values.lookup name = some op) : t.resolve? name = some op := by
  rw [resolve?, h]

lemma resolve?_ofUnnamed (hname : t.name? op = none) (h : t.values.lookup (ofUnnamed op) = none) :
    t.resolve? (ofUnnamed op) = some op := by
  rw [resolve?, h, unknown?_ofUnnamed]
  simp only [hname, Option.isSome_none, Bool.false_eq_true, if_false]

/-! ### Every such table is legible -/

lemma plain_of_mem_values : ∀ p ∈ standard.values, p.1.toList.all isPlainChar = true ∧
    isLed p.1 = true ∧ ¬ unknownLead.toList <+: p.1.toList ∧ ¬ hexLead <+: p.1.toList := by
  decide +kernel

lemma nodup_values : (standard.values.map Prod.fst).Nodup := by
  -- comparing numbers takes less time than comparing texts
  have hnumbers : (standard.values.map fun p =>
      Bytes.toNatBE p.1.toUTF8.data.toList).Nodup := by decide +kernel
  refine List.Nodup.of_map (fun name => Bytes.toNatBE name.toUTF8.data.toList) ?_
  rwa [List.map_map]

lemma lookup_of_mem_names {p : Opcode × String} (h : p ∈ standard.names) :
    standard.values.lookup p.2 = some p.1 :=
  lookup_of_mem nodup_values (List.mem_append_right _ (List.mem_map_of_mem h))

lemma legible_standard : standard.Legible := by
  refine ⟨?_, ?_, ?_⟩
  · intro op name hop
    have hlookup := lookup_of_mem_names (mem_of_lookup hop)
    obtain ⟨hplain, hled, -, -⟩ := plain_of_mem_values _ (mem_of_lookup hlookup)
    rw [List.all_eq_true] at hplain
    exact ⟨hlookup, isNormal_of_isPlainChar hplain hled,
      fun c hc => isWord_of_isPlainChar (hplain c hc)⟩
  · intro op _
    by_contra hsome
    obtain ⟨op', hop'⟩ := Option.ne_none_iff_exists'.1 hsome
    obtain ⟨-, -, hlead, -⟩ := plain_of_mem_values _ (mem_of_lookup hop')
    refine hlead ?_
    rw [toList_ofUnnamed]
    exact List.prefix_append _ _
  · intro name op hlookup
    exact (plain_of_mem_values _ (mem_of_lookup hlookup)).2.2.2

lemma Legible.rename (h : t.Legible) (hname : t.MayName op name) : (t.rename op name).Legible := by
  have hnormal := isNormal_normalize name
  have hfree := hname.free
  rw [value?_of_isNormal hnormal] at hfree
  have hnames (op' : Opcode) : (t.rename op name).name? op' =
      if op' = op then some (Mnemonic.normalize name) else t.name? op' := by
    unfold name? OpcodeTable.rename
    exact lookup_cons_eq
  have hvalues (name' : String) : (t.rename op name).values.lookup name' =
      if name' = Mnemonic.normalize name then some op else t.values.lookup name' := by
    unfold OpcodeTable.rename
    exact lookup_cons_eq
  refine ⟨?_, ?_, ?_⟩
  · intro op' name' hop'
    rw [hnames] at hop'
    rw [hvalues]
    by_cases hop : op' = op
    · rw [if_pos hop] at hop'
      cases hop'
      rw [if_pos rfl, hop]
      exact ⟨rfl, hnormal, hname.plain.word⟩
    · rw [if_neg hop] at hop'
      obtain ⟨hlookup, hrest⟩ := h.named op' name' hop'
      refine ⟨?_, hrest⟩
      rw [if_neg]
      · exact hlookup
      · -- the new mnemonic would name `op'` already
        rintro rfl
        exact hop (hfree op' (resolve?_of_lookup hlookup))
  · intro op' hop'
    rw [hnames] at hop'
    rw [hvalues]
    by_cases hop : op' = op
    · rw [if_pos hop] at hop'
      cases hop'
    · rw [if_neg hop] at hop'
      have hlookup := h.unnamed op' hop'
      rw [if_neg]
      · exact hlookup
      · intro heq
        exact hop (hfree op' (heq ▸ resolve?_ofUnnamed hop' hlookup))
  · intro name' op' hlookup
    rw [hvalues] at hlookup
    by_cases hn : name' = Mnemonic.normalize name
    · rw [hn]
      exact hname.plain.notHex
    · rw [if_neg hn] at hlookup
      exact h.notHex name' op' hlookup

/-- **Tables renamed with care are legible.** -/
theorem Careful.legible (h : t.Careful) : t.Legible := by
  induction h with
  | standard => exact legible_standard
  | setDisabled ops _ ih => exact ⟨ih.named, ih.unnamed, ih.notHex⟩
  | register op handler _ ih => exact ⟨ih.named, ih.unnamed, ih.notHex⟩
  | rename _ hname ih => exact ih.rename hname

/-! ### Reading what is written -/

lemma name_eq (t : OpcodeTable) (op : Opcode) : t.name op = (t.name? op).getD (ofUnnamed op) := rfl

theorem Legible.value?_name (h : t.Legible) (op : Opcode) : t.value? (t.name op) = some op := by
  rw [name_eq]
  cases hop : t.name? op with
  | some name =>
    obtain ⟨hlookup, hnormal, -⟩ := h.named op name hop
    rw [Option.getD_some, value?_of_isNormal hnormal]
    exact resolve?_of_lookup hlookup
  | none =>
    rw [Option.getD_none, value?_of_isNormal (isNormal_ofUnnamed op)]
    exact resolve?_ofUnnamed hop (h.unnamed op hop)

lemma Legible.isWord_name (h : t.Legible) (op : Opcode) : Text.IsWord (t.name op).toList := by
  have hne {name : String} (hnormal : IsNormal name) : name.toList ≠ [] := by
    intro hnil
    have hled := hnormal.2
    rw [isLed, hnil] at hled
    cases hled
  rw [name_eq]
  cases hop : t.name? op with
  | some name =>
    obtain ⟨-, hnormal, hword⟩ := h.named op name hop
    exact ⟨hne hnormal, hword⟩
  | none =>
    exact ⟨hne (isNormal_ofUnnamed op),
      fun c hc => isWord_of_isPlainChar (isPlainChar_ofUnnamed op c hc)⟩

lemma Legible.value?_hex (h : t.Legible) (digits : List Char) :
    t.value? (String.ofList ('0' :: 'x' :: digits)) = none := by
  have hfull : (Mnemonic.normalize (String.ofList ('0' :: 'x' :: digits))).toList =
      hexLead ++ digits.map Char.toUpper := by
    have hupper : (upperCase (String.ofList ('0' :: 'x' :: digits))).toList =
        '0' :: 'X' :: digits.map Char.toUpper := by
      rw [toList_upperCase, String.toList_ofList]
      rfl
    have hled : isLed (upperCase (String.ofList ('0' :: 'x' :: digits))) = false := by
      rw [isLed, hupper]
      rfl
    unfold Mnemonic.normalize
    simp only [hled, Bool.false_eq_true, if_false]
    rw [String.toList_append, hupper]
    rfl
  have hlookup :
      t.values.lookup (Mnemonic.normalize (String.ofList ('0' :: 'x' :: digits))) = none := by
    by_contra hsome
    obtain ⟨op, hop⟩ := Option.ne_none_iff_exists'.1 hsome
    -- the mnemonic would begin like a number
    refine h.notHex _ op hop ?_
    rw [hfull]
    exact List.prefix_append _ _
  have hunknown : unknown? (Mnemonic.normalize (String.ofList ('0' :: 'x' :: digits))) = none := by
    unfold unknown?
    rw [hfull]
    rfl
  unfold value? resolve?
  rw [hlookup, hunknown]

end OpcodeTable

end CoinScript
