import CoinScript.Profile
import CoinScript.Proofs.Record.Assignment
import CoinScript.Proofs.TimeLock.Rules
import CoinScript.Verification

/-!
The integers that a transaction reports.

A layout may give an integer up to eight bytes of either sign rule, and each accessor answers with
numbers of its own size. What an accessor makes of an integer is told from the range of the field:
sequences and indices are reported as they are or not at all, while versions, lock times and
amounts are cut to size where the field is larger.
-/

namespace CoinScript

open FieldName

/-- A kind of entity has an integer field of a name, with its width and sign rule. -/
def SchemaSet.HasInt (set : SchemaSet) (kind : EntityKind) (name : String) (w : Nat)
    (signed : Bool) : Prop :=
  ∃ f ∈ set.fields kind, f.name = name ∧ f.encoding = .int w signed

variable {set : SchemaSet}

/-! ### Integers of records -/

lemma Record.WellFormed.exists_inRange {k : EntityKind} {r : Record} (hr : r.WellFormed set k)
    {name : String} {v : Int} (h : r.int? name = some v) :
    ∃ w signed, set.HasInt k name w signed ∧ w ≤ 8 ∧ InRange w signed v := by
  have hk := hr.kind_eq
  have hs := hr.schemas_eq
  subst hk hs
  obtain ⟨u, hu, hint⟩ := Option.bind_eq_some_iff.1 h
  obtain ⟨f, hf, rfl⟩ := Record.exists_of_get? hu
  obtain ⟨w, signed, he, hv⟩ :=
    (FieldEncoding.exists_stores_iff hint).1 ⟨u, hr.tidy.stored f hf u hu⟩
  exact ⟨w, signed, ⟨f, hf, rfl, he⟩, ((r.schemas.sound r.kind f hf).sized w signed he).2, hv⟩

lemma InRange.bmod_eq {w : Nat} {signed : Bool} {v : Int} (hw : w ≤ 8) (h : InRange w signed v) :
    v.bmod 0x10000000000000000 = v ∨ (w = 8 ∧ signed = false) ∧
      0x8000000000000000 ≤ v ∧ v.bmod 0x10000000000000000 = v - 0x10000000000000000 := by
  have hbounds := h.bounds hw
  by_cases hlt : v < 0x8000000000000000
  · exact .inl (Int.bmod_eq_of_le hbounds.1 hlt)
  · have hfield : w = 8 ∧ signed = false := by
      cases signed with
      | true => exact absurd (h.mono hw).2 hlt
      | false =>
        refine ⟨?_, rfl⟩
        by_contra hne
        have hnarrow : InRange 7 false v := h.mono (by omega)
        exact hlt (Int.lt_trans hnarrow.2 (by decide))
    have hmod : v % ((0x10000000000000000 : Nat) : Int) = v :=
      Int.emod_eq_of_lt (by omega) hbounds.2
    refine .inr ⟨hfield, by omega, ?_⟩
    rw [Int.bmod_def, hmod, if_neg (by omega)]
    rfl

lemma InRange.beyond_word {w : Nat} {signed : Bool} {v : Int} (h : InRange w signed v)
    (hout : ¬ (0 ≤ v ∧ v < 0x100000000)) : signed = true ∨ 4 < w := by
  by_contra hnarrow
  rw [not_or, Bool.not_eq_true, Nat.not_lt] at hnarrow
  obtain ⟨rfl, hw⟩ := hnarrow
  exact hout (h.mono hw)

namespace Transaction

variable {tx : Transaction} {k : EntityKind} {r : Record}

lemma wellFormed_of_mem_vector (hr : tx.record.WellFormed set tx.record.kind)
    (h : r ∈ tx.vector k) : r.WellFormed set k := by
  unfold vector at h
  cases hname : tx.record.schema.vectorField? k with
  | none => simp [hname] at h
  | some name =>
    obtain ⟨f, hf, rfl⟩ := Option.map_eq_some_iff.1 hname
    have henc : f.encoding = .vector k := by simpa using List.find?_some hf
    rw [hname, Option.bind_some] at h
    cases hrs : tx.record.records? f.name with
    | none => simp [hrs] at h
    | some rs =>
      obtain ⟨v, hv, hvrs⟩ := Option.bind_eq_some_iff.1 hrs
      have hs := hr.schemas_eq
      have hm := hr.matches_of_get? (hs ▸ List.mem_of_find?_eq_some hf) hv
      rw [henc] at hm
      cases hm with
      | vector wf =>
        cases hvrs
        exact wf r (by simpa [hrs] using h)

lemma word_eq_ok {v : Int} {e : EncodingFault} {n : Nat} :
    word v e = .ok n ↔ (n : Int) = v ∧ n < 0x100000000 := by
  unfold word
  split
  · rw [Except.ok.injEq]
    omega
  · simp only [reduceCtorEq, false_iff]
    omega

lemma input_eq_ok {i : Nat} : tx.input i = .ok r ↔ tx.inputs[i]? = some r := by
  unfold input
  cases tx.inputs[i]? <;> simp

lemma output_eq_ok {i : Nat} : tx.output i = .ok r ↔ tx.outputs[i]? = some r := by
  unfold output
  cases tx.outputs[i]? <;> simp

lemma required_eq_ok {α : Type} {name : String} {a? : Option α} {a : α} :
    required name a? = .ok a ↔ a? = some a := by
  cases a? <;> simp [required]

lemma inputSequence_of_input {i : Nat} {v : Int} (hi : tx.inputs[i]? = some r)
    (hv : r.int? sequence = some v) : tx.inputSequence i = word v (.sequenceTooWide v) := by
  unfold inputSequence
  rw [input_eq_ok.2 hi, Except.ok_bind, required_eq_ok.2 hv, Except.ok_bind]

lemma outputValue_of_output {i : Nat} {v : Int} (hi : tx.outputs[i]? = some r)
    (hv : r.int? value = some v) : tx.outputValue i = .ok (v.bmod 0x10000000000000000) := by
  unfold outputValue
  rw [output_eq_ok.2 hi, Except.ok_bind, required_eq_ok.2 hv, Except.ok_bind]
  rfl

lemma inputPrevout_of_input {i : Nat} {x : Record} {v : Int} (hi : tx.inputs[i]? = some r)
    (hx : r.record? prevOut = some x) (hv : x.int? index = some v) (h : Hash256) (n : Nat) :
    tx.inputPrevout i = .ok (h, n) ↔
      x.bytes? hash = some h.bytes ∧ word v (.outpointIndexTooWide v) = .ok n := by
  unfold inputPrevout
  rw [input_eq_ok.2 hi, Except.ok_bind, required_eq_ok.2 hx, Except.ok_bind]
  cases hb : x.bytes? hash with
  | none => simp [required]
  | some b =>
    rw [required_eq_ok.2 rfl, Except.ok_bind]
    cases hh : Hash256.ofBytes? b with
    | none =>
      -- bytes that are no hash are not those of `h` either
      simp only [reduceCtorEq, false_iff, not_and]
      intro hbytes
      rw [Hash256.ofBytes?_eq_some.2 (Option.some.inj hbytes).symm] at hh
      cases hh
    | some h' =>
      obtain rfl := Hash256.ofBytes?_eq_some.1 hh
      have hsame : h' = h ↔ h'.bytes = h.bytes := by
        rcases h with ⟨b, _⟩
        rcases h' with ⟨b', _⟩
        rw [Hash256.mk.injEq]
      simp only [required_eq_ok.2 hv, Except.ok_bind]
      cases word v (.outpointIndexTooWide v) with
      | error e => simp
      | ok m =>
        simp only [Except.ok_bind, pure, Except.pure, Except.ok.injEq, Prod.mk.injEq,
          Option.some.injEq, hsame]

/-! ### Integers of transactions -/

open TimeLock

lemma version_eq (hr : tx.record.WellFormed set .transaction) {v : Int}
    (hv : tx.record.int? FieldName.version = some v) : tx.version = v ∨
      set.HasInt .transaction FieldName.version 8 false ∧
        0x8000000000000000 ≤ v ∧ tx.version = v - 0x10000000000000000 := by
  obtain ⟨w, signed, hfield, hw, hrange⟩ := hr.exists_inRange hv
  have hversion : tx.version = v.bmod 0x10000000000000000 := by
    rw [version, hv, Option.getD_some]
  rw [hversion]
  rcases hrange.bmod_eq hw with heq | ⟨⟨rfl, rfl⟩, hlow, heq⟩
  · exact .inl heq
  · exact .inr ⟨hfield, hlow, heq⟩

lemma lockTime_eq {v : Int} (hv : tx.record.int? FieldName.lockTime = some v) :
    (tx.lockTime : Int) = v % 0x100000000 := by
  rw [lockTime, hv, Option.getD_some]
  omega

lemma inputSequence_eq_ok {i : Nat} {r : Record} {v : Int} (hi : tx.inputs[i]? = some r)
    (hv : r.int? sequence = some v) {n : Nat} :
    tx.inputSequence i = .ok n ↔ (n : Int) = v ∧ n < 0x100000000 := by
  rw [inputSequence_of_input hi hv, word_eq_ok]

lemma exists_word {q : Int} {P : Nat → Prop} :
    (∃ n : Nat, ((n : Int) = q ∧ n < 0x100000000) ∧ P n) ↔
      (0 ≤ q ∧ q < 0x100000000) ∧ P q.toNat := by
  constructor
  · rintro ⟨n, ⟨rfl, hn⟩, hP⟩
    exact ⟨by omega, hP⟩
  · rintro ⟨hq, hP⟩
    exact ⟨q.toNat, by omega, hP⟩

lemma outputValue_eq (hr : tx.record.WellFormed set tx.record.kind) {i : Nat} {r : Record} {v : Int}
    (hi : tx.outputs[i]? = some r) (hv : r.int? value = some v) : tx.outputValue i = .ok v ∨
      set.HasInt .txOut value 8 false ∧
        0x8000000000000000 ≤ v ∧ tx.outputValue i = .ok (v - 0x10000000000000000) := by
  have hout : r.WellFormed set .txOut := wellFormed_of_mem_vector hr (List.mem_of_getElem? hi)
  obtain ⟨w, signed, hfield, hw, hrange⟩ := hout.exists_inRange hv
  rw [outputValue_of_output hi hv]
  rcases hrange.bmod_eq hw with heq | ⟨⟨rfl, rfl⟩, hlow, heq⟩
  · exact .inl (congrArg Except.ok heq)
  · exact .inr ⟨hfield, hlow, congrArg Except.ok heq⟩

lemma checkLockTime_passes_fields {s : Setting} {name : String} {stack : List Bytes} {r : Record}
    {v q : Int} (hflag : s.flags.has Flags.checkLockTime = true) (htx : s.tx? = some tx)
    (hv : tx.record.int? FieldName.lockTime = some v) (hi : tx.inputs[s.input]? = some r)
    (hq : r.int? sequence = some q) : (∃ log, checkLockTime s name stack = .ok log) ↔
      ∃ n, operand name stack = .ok n ∧ ((n : Int) < threshold ↔ v % 0x100000000 < threshold) ∧
        n ≤ v % 0x100000000 ∧ (0 ≤ q ∧ q < 0xffffffff) ∧
        ∀ c ∈ s.chain?,
          v % 0x100000000 ≤ if v % 0x100000000 < threshold then c.height else c.time := by
  -- the accessor wraps the field around, so the comparisons are of what is left of it
  have hlockTime := lockTime_eq hv
  have hchain (c : ChainState) : tx.lockTime ≤ reached c tx.lockTime ↔
      v % 0x100000000 ≤ if v % 0x100000000 < threshold then c.height else c.time := by
    rw [reached, ← hlockTime]
    split <;> omega
  have hfinal : q.toNat ≠ finalSequence ↔ q ≠ 0xffffffff := by
    unfold finalSequence
    omega
  rw [checkLockTime_passes hflag htx]
  simp only [inputSequence_eq_ok hi hq, hchain, exists_word, hlockTime]
  refine exists_congr fun n => and_congr_right fun _ => and_congr_right fun _ =>
    and_congr (by omega) ?_
  rw [← and_assoc, hfinal]
  exact and_congr_left fun _ => by omega

lemma checkSequence_passes_fields (hr : tx.record.WellFormed set .transaction) {s : Setting}
    {name : String} {stack : List Bytes} {r : Record} {m q : Int}
    (hflag : s.flags.has Flags.checkSequence = true) (htx : s.tx? = some tx)
    (hm : tx.record.int? FieldName.version = some m) (hi : tx.inputs[s.input]? = some r)
    (hq : r.int? sequence = some q) : (∃ log, checkSequence s name stack = .ok log) ↔
      ∃ n, operand name stack = .ok n ∧ (n &&& disableBit = 0 →
        (2 ≤ m ∧ m < 0x8000000000000000) ∧ (0 ≤ q ∧ q < 0x100000000) ∧ q.toNat &&& disableBit = 0 ∧
          n &&& typeBit = q.toNat &&& typeBit ∧ n &&& valueMask ≤ q.toNat &&& valueMask) := by
  have hversion : 2 ≤ tx.version ↔ 2 ≤ m ∧ m < 0x8000000000000000 := by
    have hbound : tx.version < 0x8000000000000000 := Int.bmod_lt (by decide)
    obtain ⟨_, _, -, hw, hrange⟩ := hr.exists_inRange hm
    have hsize := hrange.bounds hw
    rcases version_eq hr hm with heq | ⟨-, hlarge, heq⟩ <;> omega
  rw [checkSequence_passes hflag htx]
  simp only [inputSequence_eq_ok hi hq, hversion, exists_word]

/-- **The integers of a transaction** as it reports them and as the handlers of time locks compare
them. Sequences and indices are reported as they are or not at all. An amount or a version is
reported as it is unless an unsigned field of eight bytes has it beyond the signed numbers of that
size, and of a lock time the low four bytes are reported. -/
theorem reported_integers (hr : Record.Reachable set tx.record)
    (hk : tx.record.kind = .transaction) :
    (∀ v, tx.record.int? FieldName.version = some v → tx.version = v ∨
      set.HasInt .transaction FieldName.version 8 false ∧
        0x8000000000000000 ≤ v ∧ tx.version = v - 0x10000000000000000) ∧
    (∀ v, tx.record.int? FieldName.lockTime = some v →
      tx.lockTime = v % 0x100000000 ∧ (tx.lockTime = v ∨ ∃ w signed,
        set.HasInt .transaction FieldName.lockTime w signed ∧ (signed = true ∨ 4 < w))) ∧
    (∀ i r v, tx.inputs[i]? = some r → r.int? sequence = some v →
      ∀ n, tx.inputSequence i = .ok n ↔ (n : Int) = v ∧ n < 0x100000000) ∧
    (∀ i r x v, tx.inputs[i]? = some r → r.record? prevOut = some x → x.int? index = some v →
      ∀ h n, tx.inputPrevout i = .ok (h, n) ↔
        x.bytes? hash = some h.bytes ∧ (n : Int) = v ∧ n < 0x100000000) ∧
    (∀ i r v, tx.outputs[i]? = some r → r.int? value = some v → tx.outputValue i = .ok v ∨
      set.HasInt .txOut value 8 false ∧
        0x8000000000000000 ≤ v ∧ tx.outputValue i = .ok (v - 0x10000000000000000)) ∧
    (∀ (s : Setting) name stack r v q, s.tx? = some tx → tx.inputs[s.input]? = some r →
      tx.record.int? FieldName.lockTime = some v → r.int? sequence = some q →
      s.flags.has Flags.checkLockTime = true →
      ((∃ log, checkLockTime s name stack = .ok log) ↔ ∃ n, operand name stack = .ok n ∧
        ((n : Int) < threshold ↔ v % 0x100000000 < threshold) ∧ n ≤ v % 0x100000000 ∧
        (0 ≤ q ∧ q < 0xffffffff) ∧
        ∀ c ∈ s.chain?,
          v % 0x100000000 ≤ if v % 0x100000000 < threshold then c.height else c.time)) ∧
    ∀ (s : Setting) name stack r m q, s.tx? = some tx → tx.inputs[s.input]? = some r →
      tx.record.int? FieldName.version = some m → r.int? sequence = some q →
      s.flags.has Flags.checkSequence = true →
      ((∃ log, checkSequence s name stack = .ok log) ↔ ∃ n, operand name stack = .ok n ∧
        (n &&& disableBit = 0 → (2 ≤ m ∧ m < 0x8000000000000000) ∧ (0 ≤ q ∧ q < 0x100000000) ∧
          q.toNat &&& disableBit = 0 ∧ n &&& typeBit = q.toNat &&& typeBit ∧
          n &&& valueMask ≤ q.toNat &&& valueMask)) := by
  have hwf := hr.wellFormed
  have htx : tx.record.WellFormed set .transaction := hk ▸ hwf
  refine ⟨fun v hv => version_eq htx hv, ?_, fun i r v hi hv n => inputSequence_eq_ok hi hv, ?_,
    fun i r v hi hv => outputValue_eq hwf hi hv,
    fun s name stack r v q hs hi hv hq hflag => checkLockTime_passes_fields hflag hs hv hi hq,
    fun s name stack r m q hs hi hm hq hflag => checkSequence_passes_fields htx hflag hs hm hi hq⟩
  · intro v hv
    obtain ⟨w, signed, hfield, hw, hrange⟩ := htx.exists_inRange hv
    have hlockTime := lockTime_eq hv
    refine ⟨hlockTime, ?_⟩
    -- a field that is no wider than a word and has no sign never wraps
    by_cases hin : 0 ≤ v ∧ v < 0x100000000
    · exact .inl (by omega)
    · exact .inr ⟨w, signed, hfield, hrange.beyond_word hin⟩
  · intro i r x v hi hx hv h n
    rw [inputPrevout_of_input hi hx hv, word_eq_ok]

/-! ### Integers that are too large -/

/-- A network whose versions, lock times and amounts are unsigned numbers of eight bytes. -/
def wideConfig : ProfileConfig where
  layout?
    | .transaction => some
        [{ name := FieldName.version, encoding := .int 8 false },
         { name := FieldName.inputs, encoding := .vector .txIn },
         { name := FieldName.outputs, encoding := .vector .txOut },
         { name := FieldName.lockTime, encoding := .int 8 false }]
    | .txOut => some
        [{ name := value, encoding := .int 8 false }, { name := scriptPubKey, encoding := .script }]
    | _ => none

def wide : SchemaSet :=
  { Standard.bitcoin with
    transaction := ⟨wideConfig.fields .transaction, by decide⟩
    txout := ⟨wideConfig.fields .txOut, by decide⟩ }

/-- The largest version and amount, and a lock time that a number of four bytes cuts to 5. -/
def wideTransaction : Transaction :=
  ⟨.mk wide .transaction
    [some (.uint 0xffffffffffffffff),
     some (.records [.mk wide .txIn
       [some (.record (.mk wide .outPoint [some (.hash Hash256.zero), some (.uint 0)])),
        some (.script .empty), some (.uint 0)]]),
     some (.records [.mk wide .txOut [some (.uint 0xffffffffffffffff), some (.script .empty)]]),
     some (.uint 0x100000005)]⟩

lemma wideTransaction_deserialized :
    Transaction.deserialize wide wideTransaction.serialize = .ok wideTransaction := by
  rfl

theorem wideTransaction_reported : Record.Reachable wide wideTransaction.record ∧
    wideTransaction.record.kind = .transaction ∧ wideTransaction.lockTime = 5 ∧
      wideTransaction.inputSequence 0 = .ok 0 := by
  have hread : Record.deserialize wide .transaction wideTransaction.serialize =
      .ok wideTransaction.record := rfl
  have hreachable : Record.Reachable wide wideTransaction.record := .deserialize hread
  obtain ⟨-, hlockTime, hsequence, -⟩ := reported_integers hreachable rfl
  have hlow := (hlockTime 0x100000005 rfl).1
  exact ⟨hreachable, rfl, by omega, (hsequence 0 _ 0 rfl rfl 0).2 ⟨rfl, by decide⟩⟩

lemma wide_ofConfig : Profile.ofConfig wideConfig = .ok ⟨"", wide, OpcodeTable.timeLocked⟩ := by
  rfl

/-- **Integers that are too large** come out changed, and a lock time of which only the low bytes
have come passes for one that has come. -/
theorem wideTransaction_misreported : ∃ p, Profile.ofConfig wideConfig = .ok p ∧
    Transaction.deserialize p.schemas wideTransaction.serialize = .ok wideTransaction ∧
    (∃ r, wideTransaction.outputs[0]? = some r ∧ r.int? value = some 0xffffffffffffffff) ∧
    wideTransaction.outputValue 0 = .ok (-1) ∧
    wideTransaction.record.int? FieldName.version = some 0xffffffffffffffff ∧
    wideTransaction.version = -1 ∧
    wideTransaction.record.int? FieldName.lockTime = some 0x100000005 ∧
    wideTransaction.lockTime = 5 ∧
    ∃ log, checkLockTime { tx? := some wideTransaction, chain? := some ⟨5, 0⟩ }
      "OP_CHECKLOCKTIMEVERIFY" [[5]] = .ok log :=
  ⟨_, wide_ofConfig, wideTransaction_deserialized, ⟨_, rfl, rfl⟩, rfl, rfl, by decide, rfl,
    by decide, (checkLockTime_passes rfl rfl).2 ⟨5, rfl, by decide, by decide, 0, rfl, by decide,
      by rintro c ⟨⟩; decide⟩⟩

end Transaction

end CoinScript
