import Mathlib.Data.Set.List
import CoinScript.Proofs.Except
import CoinScript.Proofs.Record.Slots
import CoinScript.SignatureHash

/-!
Inputs and outputs as plain data.

Where inputs and outputs have the standard layout, the well-formed records of their kinds are just
those of the values defined here. Setting a field of such a record is changing a component of the
value.
-/

namespace CoinScript

open FieldName

/-- Inputs, outputs and what inputs spend have the standard layout. -/
structure SchemaSet.StandardParts (set : SchemaSet) : Prop where
  outpoint : set.fields .outPoint = Standard.outpointFields
  txin : set.fields .txIn = Standard.txinFields
  txout : set.fields .txOut = Standard.txoutFields

/-- What an input says: the output that it spends, the script that unlocks it and a sequence. -/
structure Input where
  hash : Hash256
  index : UInt32
  script : Script
  sequence : UInt32

/-- What an output says: an amount and the script that locks it. -/
structure Output where
  value : Int64
  script : Script

namespace Input

def outpoint (set : SchemaSet) (x : Input) : Record :=
  .mk set .outPoint [some (.hash x.hash), some (.uint x.index.toNat)]

def record (set : SchemaSet) (x : Input) : Record :=
  .mk set .txIn [some (.record (x.outpoint set)), some (.script x.script),
    some (.uint x.sequence.toNat)]

end Input

def Output.record (set : SchemaSet) (y : Output) : Record :=
  .mk set .txOut [some (.int y.value.toInt), some (.script y.script)]

/-- The output that stands for one that is not signed. -/
def Output.null : Output := ⟨-1, .empty⟩

variable {set : SchemaSet}

/-! ### Numbers of a fixed width -/

lemma matches_uint32 {v : FieldValue} :
    v.Matches set (.int 4 false) ↔ ∃ w : UInt32, v = .uint w.toNat := by
  constructor
  · rintro (_ | @⟨_, n, hfit⟩)
    have hlt : n < 2 ^ 32 := (intFits_unsigned (by decide)).1 hfit
    refine ⟨UInt32.ofNat n, ?_⟩
    rw [UInt32.toNat_ofNat_of_lt' hlt]
  · rintro ⟨w, rfl⟩
    exact .uint ((intFits_unsigned (by decide)).2 w.toNat_lt)

lemma matches_int32 {v : FieldValue} :
    v.Matches set (.int 4 true) ↔ ∃ w : Int32, v = .int w.toInt := by
  have hfits (n : Int) : intFits n 4 true = true ↔ -2 ^ 31 ≤ n ∧ n < 2 ^ 31 := by
    simp [intFits]
  constructor
  · rintro (@⟨_, n, hfit⟩ | _)
    obtain ⟨hle, hlt⟩ := (hfits n).1 hfit
    exact ⟨Int32.ofInt n, by rw [Int32.toInt_ofInt_of_le hle hlt]⟩
  · rintro ⟨w, rfl⟩
    exact .int ((hfits _).2 ⟨w.le_toInt, w.toInt_lt⟩)

lemma matches_int64 {v : FieldValue} :
    v.Matches set (.int 8 true) ↔ ∃ w : Int64, v = .int w.toInt := by
  have hfits (n : Int) : intFits n 8 true = true ↔ -2 ^ 63 ≤ n ∧ n < 2 ^ 63 := by
    simp [intFits]
  constructor
  · rintro (@⟨_, n, hfit⟩ | _)
    obtain ⟨hle, hlt⟩ := (hfits n).1 hfit
    exact ⟨Int64.ofInt n, by rw [Int64.toInt_ofInt_of_le hle hlt]⟩
  · rintro ⟨w, rfl⟩
    exact .int ((hfits _).2 ⟨w.le_toInt, w.toInt_lt⟩)

lemma exists_eq_map {α β : Type} {f : α → β} {bs : List β} (h : ∀ b ∈ bs, ∃ a, b = f a) :
    ∃ as : List α, bs = as.map f := by
  have hrange : bs ∈ Set.range (List.map f) := by
    rw [Set.range_list_map]
    exact fun b hb => (h b hb).imp fun a ha => ha.symm
  obtain ⟨as, has⟩ := hrange
  exact ⟨as, has.symm⟩

namespace Input

variable (x : Input)

/-! ### Inputs -/

lemma outpoint_wellFormed (c : set.StandardParts) : (x.outpoint set).WellFormed set .outPoint := by
  refine .mk ?_
  rw [c.outpoint]
  exact .filled rfl (.hash _) (.filled rfl (matches_uint32.2 ⟨_, rfl⟩) .nil)

lemma record_wellFormed (c : set.StandardParts) : (x.record set).WellFormed set .txIn := by
  refine .mk ?_
  rw [c.txin]
  exact .filled rfl (.nested (x.outpoint_wellFormed c))
    (.filled rfl (.script _) (.filled rfl (matches_uint32.2 ⟨_, rfl⟩) .nil))

lemma exists_of_wellFormed (c : set.StandardParts) {r : Record} (h : r.WellFormed set .txIn) :
    ∃ x : Input, r = x.record set := by
  have hpoint {p : Record} (hp : p.WellFormed set .outPoint) :
      ∃ (h : Hash256) (i : UInt32),
        p = .mk set .outPoint [some (.hash h), some (.uint i.toNat)] := by
    cases hp with
    | mk settled =>
      rw [c.outpoint] at settled
      obtain ⟨v, _, rfl, hhash, settled⟩ := settled.cons_of_always rfl
      obtain ⟨w, _, rfl, hindex, settled⟩ := settled.cons_of_always rfl
      obtain ⟨i, rfl⟩ := matches_uint32.1 hindex
      cases settled
      cases hhash
      exact ⟨_, i, rfl⟩
  cases h with
  | mk settled =>
    rw [c.txin] at settled
    obtain ⟨v, _, rfl, hout, settled⟩ := settled.cons_of_always rfl
    obtain ⟨s, _, rfl, hscript, settled⟩ := settled.cons_of_always rfl
    obtain ⟨w, _, rfl, hseq, settled⟩ := settled.cons_of_always rfl
    obtain ⟨sequence, rfl⟩ := matches_uint32.1 hseq
    cases settled
    cases hscript
    cases hout with
    | nested wf =>
      obtain ⟨hash, index, rfl⟩ := hpoint wf
      exact ⟨⟨hash, index, _, sequence⟩, rfl⟩

lemma wellFormed_of_mem (c : set.StandardParts) (xs : List Input) :
    ∀ r ∈ xs.map (·.record set), r.WellFormed set .txIn := by
  intro r hr
  obtain ⟨x, -, rfl⟩ := List.mem_map.1 hr
  exact x.record_wellFormed c

lemma exists_of_matches (c : set.StandardParts) {v : FieldValue}
    (h : v.Matches set (.vector .txIn)) :
    ∃ xs : List Input, v = .records (xs.map (·.record set)) := by
  cases h with
  | vector wf =>
    obtain ⟨xs, rfl⟩ := exists_eq_map fun r hr => exists_of_wellFormed c (wf r hr)
    exact ⟨xs, rfl⟩

lemma record_injective : Function.Injective (record set) := by
  intro x y h
  rcases x with ⟨hash, index, script, sequence⟩
  rcases y with ⟨hash', index', script', sequence'⟩
  simp only [record, outpoint, Record.mk.injEq, List.cons.injEq, Option.some.injEq,
    FieldValue.record.injEq, FieldValue.hash.injEq, FieldValue.uint.injEq,
    FieldValue.script.injEq, UInt32.toNat_inj, true_and, and_true] at h
  simp [h]

lemma map_record_inj {xs ys : List Input} :
    xs.map (·.record set) = ys.map (·.record set) ↔ xs = ys :=
  List.map_inj_right record_injective

lemma set_script (c : set.StandardParts) (s : Script) :
    (x.record set).set scriptSig (.script s) = .ok ({ x with script := s }.record set) :=
  Record.set_mk c.txin 1 (.script s) rfl rfl rfl rfl ({ x with script := s }.record_wellFormed c)

lemma set_sequence_zero (c : set.StandardParts) :
    (x.record set).set FieldName.sequence (.uint 0) = .ok ({ x with sequence := 0 }.record set) :=
  Record.set_mk c.txin 2 (.uint 0) rfl rfl rfl rfl ({ x with sequence := 0 }.record_wellFormed c)

lemma get?_prevOut (c : set.StandardParts) :
    (x.record set).get? prevOut = some (.record (x.outpoint set)) :=
  Record.get?_mk c.txin prevOut

lemma get?_sequence (c : set.StandardParts) :
    (x.record set).get? FieldName.sequence = some (.uint x.sequence.toNat) :=
  Record.get?_mk c.txin FieldName.sequence

end Input

namespace Output

variable (y : Output)

/-! ### Outputs -/

lemma record_wellFormed (c : set.StandardParts) : (y.record set).WellFormed set .txOut := by
  refine .mk ?_
  rw [c.txout]
  exact .filled rfl (matches_int64.2 ⟨_, rfl⟩) (.filled rfl (.script _) .nil)

lemma exists_of_wellFormed (c : set.StandardParts) {r : Record} (h : r.WellFormed set .txOut) :
    ∃ y : Output, r = y.record set := by
  cases h with
  | mk settled =>
    rw [c.txout] at settled
    obtain ⟨v, _, rfl, hvalue, settled⟩ := settled.cons_of_always rfl
    obtain ⟨s, _, rfl, hscript, settled⟩ := settled.cons_of_always rfl
    obtain ⟨value, rfl⟩ := matches_int64.1 hvalue
    cases settled
    cases hscript
    exact ⟨⟨value, _⟩, rfl⟩

lemma wellFormed_of_mem (c : set.StandardParts) (ys : List Output) :
    ∀ r ∈ ys.map (·.record set), r.WellFormed set .txOut := by
  intro r hr
  obtain ⟨x, -, rfl⟩ := List.mem_map.1 hr
  exact x.record_wellFormed c

lemma exists_of_matches (c : set.StandardParts) {v : FieldValue}
    (h : v.Matches set (.vector .txOut)) :
    ∃ ys : List Output, v = .records (ys.map (·.record set)) := by
  cases h with
  | vector wf =>
    obtain ⟨ys, rfl⟩ := exists_eq_map fun r hr => exists_of_wellFormed c (wf r hr)
    exact ⟨ys, rfl⟩

lemma record_injective : Function.Injective (record set) := by
  intro x y h
  rcases x with ⟨value, script⟩
  rcases y with ⟨value', script'⟩
  simp only [record, Record.mk.injEq, List.cons.injEq, Option.some.injEq, FieldValue.int.injEq,
    FieldValue.script.injEq, Int64.toInt_inj, true_and, and_true] at h
  simp [h]

lemma map_record_inj {xs ys : List Output} :
    xs.map (·.record set) = ys.map (·.record set) ↔ xs = ys :=
  List.map_inj_right record_injective

lemma nullOutput_record (c : set.StandardParts) :
    SignatureHash.nullOutput (y.record set) = .ok (null.record set) := by
  have hvalue : (y.record set).set FieldName.value (.int (-1)) =
      .ok ((Output.mk (-1) y.script).record set) :=
    Record.set_mk c.txout 0 (.int (-1)) rfl rfl rfl rfl
      ((Output.mk (-1) y.script).record_wellFormed c)
  have hscript : ((Output.mk (-1) y.script).record set).set scriptPubKey (.script .empty) =
      .ok (null.record set) :=
    Record.set_mk c.txout 1 (.script .empty) rfl rfl rfl rfl (null.record_wellFormed c)
  unfold SignatureHash.nullOutput
  rw [hvalue, Except.ok_bind, hscript]

end Output

end CoinScript
