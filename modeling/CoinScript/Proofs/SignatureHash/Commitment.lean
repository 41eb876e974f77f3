import Mathlib.Tactic.MkIffOfInductiveProp
import CoinScript.Profile
import CoinScript.Proofs.SignatureHash.SigningOrder

/-!
What a signature commits to.

The bytes that are signed for two transactions are equal exactly if the transactions agree on
certain parts, which depend on the type of the signature. The scripts of inputs are not among
them.
-/

namespace CoinScript

open FieldName

/-- Two transactions, with their script codes, agree on all that a signature at an index commits
to. -/
@[mk_iff]
structure Agree (code₁ code₂ : Script) (tx₁ tx₂ : Transaction) (index : Nat) (t : SighashType) :
    Prop where
  code : code₁.removeOpcode Opcode.codeSeparator = code₂.removeOpcode Opcode.codeSeparator
  /-- The fields beside inputs and outputs. -/
  fields : ∀ name, name ≠ inputs → name ≠ outputs →
    tx₁.record.get? name = tx₂.record.get? name
  /-- The input at the index. -/
  input : ∀ name ∈ [prevOut, sequence],
    tx₁.inputs[index]?.map (·.get? name) = tx₂.inputs[index]?.map (·.get? name)
  /-- What all inputs spend, and how many there are. -/
  outpoints : t.anyoneCanPay = false →
    tx₁.inputs.map (·.get? prevOut) = tx₂.inputs.map (·.get? prevOut)
  sequences : t.anyoneCanPay = false → t.isNone = false → t.isSingle = false →
    tx₁.inputs.map (·.get? sequence) = tx₂.inputs.map (·.get? sequence)
  /-- The output at the index. -/
  output : t.isSingle = true → tx₁.outputs[index]? = tx₂.outputs[index]?
  outputs : t.isNone = false → t.isSingle = false → tx₁.outputs = tx₂.outputs

def Input.spent (x : Input) : Hash256 × UInt32 := (x.hash, x.index)

namespace SignatureHash

variable {set : SchemaSet} {code code₁ code₂ : Script} {index i : Nat} {t : SighashType}
  {x y : Input} {xs xs₁ xs₂ : List Input} {ys ys₁ ys₂ : List Output}

/-! ### Inputs -/

lemma map_signedInput_eq_iff {a b : Option Input} :
    a.map (signedInput code₁ index t i) = b.map (signedInput code₂ index t i) ↔
      (i = index → a.isSome = true → code₁ = code₂) ∧ a.map Input.spent = b.map Input.spent ∧
        (i = index ∨ (t.isNone || t.isSingle) = false →
          a.map (·.sequence) = b.map (·.sequence)) := by
  cases a with
  | none => cases b <;> simp
  | some x =>
    cases b with
    | none => simp
    | some y =>
      rcases x with ⟨hash, outIndex, script, seq⟩
      rcases y with ⟨hash', outIndex', script', seq'⟩
      unfold signedInput Input.spent
      -- only the signed input has the code for its script and keeps its sequence in every mode
      by_cases hi : i = index
      · simp [hi]
        tauto
      · cases h : t.isNone || t.isSingle
        · simp [hi]
          tauto
        · simp [hi]

lemma mapIdx_signedInput_eq_iff (hindex : index < xs₁.length) :
    xs₁.mapIdx (signedInput code₁ index t) = xs₂.mapIdx (signedInput code₂ index t) ↔
      code₁ = code₂ ∧ xs₁.map Input.spent = xs₂.map Input.spent ∧
        xs₁[index]?.map (·.sequence) = xs₂[index]?.map (·.sequence) ∧
        ((t.isNone || t.isSingle) = false →
          xs₁.map (·.sequence) = xs₂.map (·.sequence)) := by
  have hsome : xs₁[index]?.isSome = true := by
    rw [List.getElem?_eq_getElem hindex, Option.isSome_some]
  simp only [List.ext_getElem?_iff, List.getElem?_mapIdx, List.getElem?_map,
    map_signedInput_eq_iff]
  constructor
  · intro h
    exact ⟨(h index).1 rfl hsome, fun i => (h i).2.1, (h index).2.2 (.inl rfl),
      fun hkeep i => (h i).2.2 (.inr hkeep)⟩
  · rintro ⟨hcode, hspent, hseq, hseqs⟩ i
    refine ⟨fun _ _ => hcode, hspent i, ?_⟩
    rintro (rfl | hkeep)
    · exact hseq
    · exact hseqs hkeep i

lemma toList_inj {α : Type} {a b : Option α} : a.toList = b.toList ↔ a = b := by
  cases a <;> cases b <;> simp

/-- **Of the inputs** a signature commits to these parts. -/
lemma signedInputs_eq_iff (hindex : index < xs₁.length) :
    signedInputs code₁ index t xs₁ = signedInputs code₂ index t xs₂ ↔
      code₁ = code₂ ∧ xs₁[index]?.map Input.spent = xs₂[index]?.map Input.spent ∧
        xs₁[index]?.map (·.sequence) = xs₂[index]?.map (·.sequence) ∧
        (t.anyoneCanPay = false → xs₁.map Input.spent = xs₂.map Input.spent) ∧
        (t.anyoneCanPay = false → t.isNone = false → t.isSingle = false →
          xs₁.map (·.sequence) = xs₂.map (·.sequence)) := by
  -- without the signed input nothing would say anything of the code
  have hsome : xs₁[index]?.isSome = true := by
    rw [List.getElem?_eq_getElem hindex, Option.isSome_some]
  unfold signedInputs
  cases t.anyoneCanPay with
  | true =>
    simp only [if_true, toList_inj, List.getElem?_mapIdx, map_signedInput_eq_iff]
    simp [hsome]
  | false =>
    simp only [Bool.false_eq_true, if_false, mapIdx_signedInput_eq_iff hindex,
      Bool.or_eq_false_iff]
    constructor
    · rintro ⟨hcode, hspent, hseq, hseqs⟩
      have hspent' : xs₁[index]?.map Input.spent = xs₂[index]?.map Input.spent := by
        rw [← List.getElem?_map, ← List.getElem?_map, hspent]
      exact ⟨hcode, hspent', hseq, fun _ => hspent, fun _ hnone hsingle => hseqs ⟨hnone, hsingle⟩⟩
    · rintro ⟨hcode, -, hseq, hspent, hseqs⟩
      exact ⟨hcode, hspent trivial, hseq, fun h => hseqs trivial h.1 h.2⟩

/-! ### Outputs -/

lemma isNone_of_isSingle (h : t.isSingle = true) : t.isNone = false := by
  unfold SighashType.isSingle at h
  unfold SighashType.isNone
  rw [beq_iff_eq.1 h]
  rfl

lemma signedOutputs_eq_iff :
    signedOutputs index t ys₁ = signedOutputs index t ys₂ ↔
      (t.isSingle = true → ys₁[index]? = ys₂[index]?) ∧
        (t.isNone = false → t.isSingle = false → ys₁ = ys₂) := by
  unfold signedOutputs
  cases hsingle : t.isSingle with
  | true =>
    rw [isNone_of_isSingle hsingle]
    simp [toList_inj]
  | false => cases t.isNone <;> simp

/-! ### Transactions -/

def spentValue (set : SchemaSet) (p : Hash256 × UInt32) : Option FieldValue :=
  some (.record (.mk set .outPoint [some (.hash p.1), some (.uint p.2.toNat)]))

lemma spentValue_injective : Function.Injective (spentValue set) := by
  intro p q h
  simp only [spentValue, Option.some.injEq, FieldValue.record.injEq, Record.mk.injEq,
    List.cons.injEq, FieldValue.hash.injEq, FieldValue.uint.injEq, UInt32.toNat_inj, true_and,
    and_true] at h
  exact Prod.ext h.1 h.2

def sequenceValue (v : UInt32) : Option FieldValue := some (.uint v.toNat)

lemma sequenceValue_injective : Function.Injective sequenceValue := by
  intro v w h
  simpa only [sequenceValue, Option.some.injEq, FieldValue.uint.injEq, UInt32.toNat_inj] using h

section Field

variable {α : Type} {name : String} {g : Input → α} {v : α → Option FieldValue}

lemma map_get?_eq_iff (hv : Function.Injective v)
    (hget : ∀ x : Input, (x.record set).get? name = v (g x)) :
    (xs₁.map (·.record set)).map (·.get? name) = (xs₂.map (·.record set)).map (·.get? name) ↔
      xs₁.map g = xs₂.map g := by
  have hvalues (xs : List Input) :
      (xs.map (·.record set)).map (·.get? name) = (xs.map g).map v := by
    rw [List.map_map, List.map_map]
    exact List.map_congr_left fun x _ => hget x
  rw [hvalues, hvalues, List.map_inj_right hv]

lemma getElem?_get?_eq_iff (hv : Function.Injective v)
    (hget : ∀ x : Input, (x.record set).get? name = v (g x)) :
    (xs₁.map (·.record set))[i]?.map (·.get? name) =
        (xs₂.map (·.record set))[i]?.map (·.get? name) ↔
      xs₁[i]?.map g = xs₂[i]?.map g := by
  have hvalue (xs : List Input) :
      (xs.map (·.record set))[i]?.map (·.get? name) = (xs[i]?.map g).map v := by
    rw [List.getElem?_map, Option.map_map, Option.map_map]
    exact Option.map_congr fun x _ => hget x
  rw [hvalue, hvalue, (Option.map_injective hv).eq_iff]

end Field

lemma agree_transaction {c : set.Ledger} {w₁ w₂ : Frame c} :
    Agree code₁ code₂ (w₁.transaction (xs₁.map (·.record set)) (ys₁.map (·.record set)))
        (w₂.transaction (xs₂.map (·.record set)) (ys₂.map (·.record set))) index t ↔
      code₁.removeOpcode Opcode.codeSeparator = code₂.removeOpcode Opcode.codeSeparator ∧
        w₁ = w₂ ∧ xs₁[index]?.map Input.spent = xs₂[index]?.map Input.spent ∧
        xs₁[index]?.map (·.sequence) = xs₂[index]?.map (·.sequence) ∧
        (t.anyoneCanPay = false → xs₁.map Input.spent = xs₂.map Input.spent) ∧
        (t.anyoneCanPay = false → t.isNone = false → t.isSingle = false →
          xs₁.map (·.sequence) = xs₂.map (·.sequence)) ∧
        (t.isSingle = true → ys₁[index]? = ys₂[index]?) ∧
        (t.isNone = false → t.isSingle = false → ys₁ = ys₂) := by
  have hspent (x : Input) : (x.record set).get? prevOut = spentValue set x.spent :=
    x.get?_prevOut c.parts
  have hsequence (x : Input) : (x.record set).get? sequence = sequenceValue x.sequence :=
    x.get?_sequence c.parts
  have houtputAt : (ys₁.map (·.record set))[index]? = (ys₂.map (·.record set))[index]? ↔
      ys₁[index]? = ys₂[index]? := by
    simp only [List.getElem?_map, (Option.map_injective Output.record_injective).eq_iff]
  have hfields (ins₁ outs₁ ins₂ outs₂ : List Record) : (∀ name, name ≠ inputs → name ≠ outputs →
      (w₁.transaction ins₁ outs₁).record.get? name =
        (w₂.transaction ins₂ outs₂).record.get? name) ↔ w₁ = w₂ := by
    constructor
    · exact Frame.eq_of_get?
    · rintro rfl name hin hout
      rw [Frame.get?_transaction _ _ _ hin hout, Frame.get?_transaction _ _ _ hin hout]
  rw [agree_iff]
  simp only [hfields, Frame.inputs_transaction, Frame.outputs_transaction, List.forall_mem_cons,
    List.not_mem_nil, false_implies, implies_true, true_and, houtputAt, Output.map_record_inj,
    map_get?_eq_iff spentValue_injective hspent, map_get?_eq_iff sequenceValue_injective hsequence,
    getElem?_get?_eq_iff spentValue_injective hspent,
    getElem?_get?_eq_iff sequenceValue_injective hsequence, and_assoc]

lemma preimage_eq_iff (c : set.Ledger) (hroom : set.Roomy) {tx₁ tx₂ : Transaction} {b₁ b₂ : Bytes}
    (h₁ : tx₁.record.WellFormed set .transaction) (h₂ : tx₂.record.WellFormed set .transaction)
    (hb₁ : preimage code₁ tx₁ index t = .ok b₁) (hb₂ : preimage code₂ tx₂ index t = .ok b₂)
    (hlen : b₁.length < Nat.pow 256 8) : b₁ = b₂ ↔ Agree code₁ code₂ tx₁ tx₂ index t := by
  obtain ⟨w₁, xs₁, ys₁, rfl⟩ := Frame.exists_of_wellFormed c h₁
  obtain ⟨w₂, xs₂, ys₂, rfl⟩ := Frame.exists_of_wellFormed c h₂
  obtain ⟨hindex, -, s₁, hs₁, rfl⟩ := preimage_eq_ok.1 hb₁
  obtain ⟨-, -, s₂, hs₂, rfl⟩ := preimage_eq_ok.1 hb₂
  have hshort : (w₁.transaction ((signedInputs s₁ index t xs₁).map (·.record set))
      ((signedOutputs index t ys₁).map (·.record set))).serialize.length < Nat.pow 256 8 := by
    rw [List.length_append] at hlen
    omega
  have hcopies := Frame.serialize_inj hroom
    (w₁.wellFormed h₁ (signedInputs s₁ index t xs₁) (signedOutputs index t ys₁))
    (w₂.wellFormed h₂ (signedInputs s₂ index t xs₂) (signedOutputs index t ys₂)) hshort
  rw [List.append_left_inj, hcopies, signedInputs_eq_iff hindex, signedOutputs_eq_iff,
    agree_transaction, hs₁, hs₂, Except.ok.injEq]
  tauto

/-- **A signature commits** to what `Agree` says, and to nothing else: two byte strings that are
signed, of lengths that eight bytes can hold, are equal exactly if their transactions and script
codes agree. Putting a script into an input never changes what is signed, so inputs may be signed
in any order. -/
theorem preimage_eq_iff_agree {p : Profile} (hp : p = Profile.bitcoin ∨ p = Profile.clams)
    {tx₁ tx₂ : Transaction} (h₁ : tx₁.record.WellFormed p.schemas .transaction)
    (h₂ : tx₂.record.WellFormed p.schemas .transaction) {b₁ b₂ : Bytes}
    (hb₁ : preimage code₁ tx₁ index t = .ok b₁) (hb₂ : preimage code₂ tx₂ index t = .ok b₂)
    (hlen : b₁.length < Nat.pow 256 8) :
    (b₁ = b₂ ↔ Agree code₁ code₂ tx₁ tx₂ index t) ∧
      (∀ k s, k < tx₁.inputs.length → ∃ tx, tx₁.setInputScript k s = .ok tx ∧
        tx.record.WellFormed p.schemas .transaction ∧
        ∀ code index t, digest code tx index t = digest code tx₁ index t) ∧
      ∀ (order order' : List Signing) (tx : Transaction), order.Perm order' →
        (order.map (·.index)).Nodup →
          (tx₁.signAll order = .ok tx ↔ tx₁.signAll order' = .ok tx) := by
  obtain ⟨c, hroom⟩ : ∃ _ : p.schemas.Ledger, p.schemas.Roomy := by
    rcases hp with rfl | rfl
    · exact ⟨Standard.bitcoinLedger, by decide⟩
    · exact ⟨Standard.clamsLedger, by decide⟩
  exact ⟨preimage_eq_iff c hroom h₁ h₂ hb₁ hb₂ hlen, fun k s hk => setInputScript_digest c h₁ hk s,
    fun order order' tx hperm hdistinct => signAll_perm c h₁ hperm hdistinct⟩

def greeting (script : Script) (sequence : UInt32) (change : Int64) : Transaction :=
  ⟨.mk Standard.clams .transaction [some (.int 2), some (.uint 9),
    some (.records ([⟨.zero, 0, script, 7⟩, ⟨.zero, 1, ⟨[0x51]⟩, sequence⟩].map
      (Input.record Standard.clams))),
    some (.records ([⟨5, ⟨[0x52]⟩⟩, ⟨change, ⟨[0x53]⟩⟩].map (Output.record Standard.clams))),
    some (.uint 0), some (.bytes [0x68, 0x69])]⟩

lemma greeting_wellFormed (script : Script) (sequence : UInt32) (change : Int64) :
    (greeting script sequence change).record.WellFormed Standard.clams .transaction := by
  have hins (xs : List Input) := Input.wellFormed_of_mem Standard.clamsLedger.parts xs
  have houts (ys : List Output) := Output.wellFormed_of_mem Standard.clamsLedger.parts ys
  exact .mk (.filled rfl (.int rfl) (.filled rfl (.uint rfl) (.filled rfl (.vector (hins _))
    (.filled rfl (.vector (houts _)) (.filled rfl (.uint rfl) (.filled rfl (.varBytes _) .nil))))))

def pushDigest (index : Nat) : Signing where
  code := ⟨[0x54]⟩
  index := index
  type := ⟨1⟩
  unlock digest := .ok ⟨0x20 :: digest.bytes⟩

/-- Another script, and in the other input and output another sequence and value, are not noticed
by a signature for one output. One for all of them tells the two apart. -/
theorem greeting_agree :
    Agree ⟨[0xab, 0x54]⟩ ⟨[0x54, 0xab]⟩ (greeting .empty 8 6) (greeting ⟨[0x55]⟩ 0 7) 0 ⟨3⟩ ∧
      ¬Agree ⟨[0xab, 0x54]⟩ ⟨[0x54, 0xab]⟩ (greeting .empty 8 6) (greeting ⟨[0x55]⟩ 0 7) 0 ⟨1⟩ ∧
      (∃ tx, (greeting .empty 8 6).setInputScript 1 ⟨[0x55]⟩ = .ok tx ∧
        digest ⟨[0x54]⟩ tx 0 ⟨1⟩ = digest ⟨[0x54]⟩ (greeting .empty 8 6) 0 ⟨1⟩) ∧
      ∃ tx, (greeting .empty 8 6).signAll [pushDigest 0, pushDigest 1] = .ok tx ∧
        (greeting .empty 8 6).signAll [pushDigest 1, pushDigest 0] = .ok tx := by
  have wf := greeting_wellFormed .empty 8 6
  have wf' := greeting_wellFormed ⟨[0x55]⟩ 0 7
  have hlast : preimage ⟨[0xab, 0x54]⟩ (greeting .empty 8 6) 0 ⟨3⟩ = .ok _ := rfl
  have hlast' : preimage ⟨[0x54, 0xab]⟩ (greeting ⟨[0x55]⟩ 0 7) 0 ⟨3⟩ = .ok _ := rfl
  have hall : preimage ⟨[0xab, 0x54]⟩ (greeting .empty 8 6) 0 ⟨1⟩ = .ok _ := rfl
  have hall' : preimage ⟨[0x54, 0xab]⟩ (greeting ⟨[0x55]⟩ 0 7) 0 ⟨1⟩ = .ok _ := rfl
  obtain ⟨hagree, hscript, horder⟩ :=
    preimage_eq_iff_agree (.inr rfl) wf wf' hlast hlast' (by decide)
  have hapart := (preimage_eq_iff_agree (.inr rfl) wf wf' hall hall' (by decide +kernel)).1
  obtain ⟨tx, hset, -, hdigest⟩ := hscript 1 ⟨[0x55]⟩ (by decide)
  refine ⟨hagree.1 rfl, fun h => absurd (hapart.2 h) (by decide), ⟨tx, hset, hdigest _ _ _⟩, _, rfl,
    ?_⟩
  exact (horder _ _ _ (.swap _ _ _) (by decide)).1 rfl

end SignatureHash

end CoinScript
