import CoinScript.Proofs.Transaction.Frame

/-!
The copy of a transaction that is signed, written down at once.

The copy is made in several passes over the inputs and the outputs. Here each input and each
output of it is given by its place alone, and the passes come to that.
-/

namespace CoinScript.SignatureHash

def signedInput (code : Script) (index : Nat) (t : SighashType) (i : Nat) (x : Input) : Input :=
  if i = index then { x with script := code }
  else
    { x with
      script := .empty
      sequence := if t.isNone || t.isSingle then 0 else x.sequence }

def signedInputs (code : Script) (index : Nat) (t : SighashType) (xs : List Input) : List Input :=
  if t.anyoneCanPay then (xs.mapIdx (signedInput code index t))[index]?.toList
  else xs.mapIdx (signedInput code index t)

def signedOutputs (index : Nat) (t : SighashType) (ys : List Output) : List Output :=
  if t.isNone then []
  else if t.isSingle then List.replicate index .null ++ ys[index]?.toList
  else ys

variable {set : SchemaSet} {code : Script} {index : Nat} {t : SighashType} {xs : List Input}
  {ys : List Output}

/-! ### The passes -/

def blankInput (code : Script) (index i : Nat) (x : Input) : Input :=
  { x with script := if i = index then code else .empty }

lemma blankScripts_map (c : set.StandardParts) :
    blankScripts code index (xs.map (·.record set)) =
      .ok ((xs.mapIdx (blankInput code index)).map (·.record set)) := by
  have hblank : (xs.map (·.record set)).mapM (·.set FieldName.scriptSig (.script .empty)) =
      .ok (xs.map fun x => { x with script := .empty }.record set) :=
    Except.mapM_map_eq_ok fun x => x.set_script c .empty
  unfold blankScripts
  rw [hblank, Except.ok_bind, List.getElem?_map]
  cases hx : xs[index]? with
  | none =>
    -- no input is the signed one, so all of them stay blank
    have hlen : xs.length ≤ index := List.getElem?_eq_none_iff.1 hx
    refine congrArg Except.ok (List.ext_getElem? fun i => ?_)
    rw [List.getElem?_map, List.getElem?_map, List.getElem?_mapIdx, Option.map_map]
    rcases Nat.lt_or_ge i xs.length with hi | hi
    · have hne : i ≠ index := by omega
      simp [Function.comp_def, blankInput, hne]
    · simp [hi]
  | some x =>
    have hset : ({ x with script := Script.empty }.record set).set FieldName.scriptSig
        (.script code) = .ok ({ x with script := code }.record set) :=
      Input.set_script _ c code
    rw [Option.map_some]
    change (do let signed ← ({ x with script := Script.empty }.record set).set _ _; _) = _
    rw [hset, Except.ok_bind]
    refine congrArg Except.ok (List.ext_getElem? fun i => ?_)
    rw [List.getElem?_set, List.getElem?_map, List.getElem?_map, List.getElem?_mapIdx,
      Option.map_map]
    by_cases hi : index = i
    · subst hi
      obtain ⟨hlt, rfl⟩ := List.getElem?_eq_some_iff.1 hx
      simp [hlt, blankInput]
    · simp [hi, Ne.symm hi, Function.comp_def, blankInput]

lemma zeroSequences_map (c : set.StandardParts) :
    zeroSequences index (xs.map (·.record set)) =
      .ok ((xs.mapIdx fun i x => if i = index then x else { x with sequence := 0 }).map
        (·.record set)) := by
  unfold zeroSequences
  rw [List.zipIdx_map, List.mapIdx_eq_zipIdx_map, List.map_map]
  refine Except.mapM_map_eq_ok fun p => ?_
  obtain ⟨x, i⟩ := p
  by_cases hi : i = index
  · simp only [Prod.map, id, hi, if_true, Function.comp_apply]
    rfl
  · simp only [Prod.map, id, hi, if_false, Function.comp_apply]
    exact x.set_sequence_zero c

lemma onlyOutput_map (c : set.StandardParts) (h : index < ys.length) :
    onlyOutput index (ys.map (·.record set)) =
      .ok ((List.replicate index Output.null ++ ys[index]?.toList).map (·.record set)) := by
  have honly : onlyOutput index (ys.map (·.record set)) =
      .ok (((ys.take (index + 1)).mapIdx fun i y => if i < index then .null else y).map
        (·.record set)) := by
    unfold onlyOutput
    rw [← List.map_take, List.zipIdx_map, List.mapIdx_eq_zipIdx_map, List.map_map]
    refine Except.mapM_map_eq_ok fun p => ?_
    obtain ⟨y, i⟩ := p
    by_cases hi : i < index
    · simp only [Prod.map, id, hi, if_true, Function.comp_apply]
      exact y.nullOutput_record c
    · simp only [Prod.map, id, hi, if_false, Function.comp_apply]
      rfl
  rw [honly]
  congr 2
  refine List.ext_getElem? fun i => ?_
  rw [List.getElem?_mapIdx, List.getElem?_take, List.getElem?_append, List.length_replicate,
    List.getElem?_replicate]
  -- null outputs before the signed index, the output at it, and nothing behind it
  rcases Nat.lt_trichotomy i index with hi | rfl | hi
  · have hi' : i < ys.length := by omega
    simp [hi, hi', Nat.lt_succ_of_lt hi]
  · simp [h]
  · have hi' : i - index ≠ 0 := by omega
    simp [Nat.not_lt.2 (Nat.le_of_lt hi), h, Nat.not_lt.2 hi, hi']

lemma keepSigned_transaction {c : set.Ledger} (w : Frame c) (outs : List Record) :
    (if t.anyoneCanPay then
        (w.transaction (xs.map (·.record set)) outs).editInputs fun rs => pure rs[index]?.toList
      else pure (w.transaction (xs.map (·.record set)) outs)) =
      Except.ok (w.transaction
        ((if t.anyoneCanPay then xs[index]?.toList else xs).map (·.record set)) outs) := by
  cases t.anyoneCanPay with
  | true =>
    have hone : (xs.map (·.record set))[index]?.toList =
        xs[index]?.toList.map (·.record set) := by
      rw [List.getElem?_map]
      cases xs[index]? <;> rfl
    simp only [if_true, w.editInputs, hone]
    rfl
  | false => rfl

lemma blankInput_eq (hnone : t.isNone = false) (hsingle : t.isSingle = false) :
    blankInput code index = signedInput code index t := by
  funext i x
  unfold blankInput signedInput
  rw [hnone, hsingle]
  by_cases hi : i = index <;> simp [hi]

lemma editInputs_zeroSequences {c : set.Ledger} (w : Frame c)
    (h : t.isNone = true ∨ t.isSingle = true) (outs : List Record) :
    (w.transaction ((xs.mapIdx (blankInput code index)).map (·.record set)) outs).editInputs
        (zeroSequences index) =
      .ok (w.transaction ((xs.mapIdx (signedInput code index t)).map (·.record set)) outs) := by
  have hpass : (xs.mapIdx (blankInput code index)).mapIdx
      (fun i x => if i = index then x else { x with sequence := 0 }) =
        xs.mapIdx (signedInput code index t) := by
    rw [List.mapIdx_mapIdx]
    congr 1
    funext i x
    unfold blankInput signedInput
    rw [Bool.or_eq_true_iff.2 h]
    by_cases hi : i = index <;> simp [hi]
  rw [w.editInputs, zeroSequences_map c.parts, Except.map_ok, hpass]

/-- **The signed copy** has the signed inputs and outputs in the frame of the transaction. -/
lemma signedCopy_transaction {c : set.Ledger} (w : Frame c) :
    signedCopy code (w.transaction (xs.map (·.record set)) (ys.map (·.record set))) index t =
      if xs.length ≤ index then .error (.inputOutOfRange index xs.length)
      else if t.isSingle ∧ ys.length ≤ index then .error (.outputOutOfRange index ys.length)
      else (fun code => w.transaction ((signedInputs code index t xs).map (·.record set))
        ((signedOutputs index t ys).map (·.record set))) <$>
          code.removeOpcode Opcode.codeSeparator := by
  unfold signedCopy
  rw [Frame.inputs_transaction, Frame.outputs_transaction, List.length_map, List.length_map]
  by_cases hin : xs.length ≤ index
  · rw [if_pos hin, if_pos hin]
    rfl
  rw [if_neg hin, if_neg hin]
  by_cases hout : t.isSingle = true ∧ ys.length ≤ index
  · rw [if_pos hout, if_pos hout]
    rfl
  rw [if_neg hout, if_neg hout]
  cases code.removeOpcode Opcode.codeSeparator with
  | error e => rfl
  | ok code =>
    unfold signedInputs signedOutputs
    simp only [Except.ok_bind, w.editInputs, blankScripts_map c.parts, Except.map_ok]
    -- the modes differ in the outputs that are kept and in whose sequence is
    cases hnone : t.isNone with
    | true =>
      have hnil : (pure [] : Except Fault (List Record)) = .ok [] := rfl
      simp only [if_true, w.editOutputs, hnil, Except.map_ok, Except.ok_bind]
      rw [editInputs_zeroSequences w (.inl hnone), Except.ok_bind]
      exact keepSigned_transaction w []
    | false =>
      cases hsingle : t.isSingle with
      | true =>
        -- an index without its output has been refused above
        have hlt : index < ys.length := by
          rw [hsingle] at hout
          simpa using hout
        simp only [Bool.false_eq_true, if_false, if_true, w.editOutputs, onlyOutput_map c.parts hlt,
          Except.map_ok, Except.ok_bind]
        rw [editInputs_zeroSequences w (.inr hsingle), Except.ok_bind]
        exact keepSigned_transaction w _
      | false =>
        simp only [Bool.false_eq_true, if_false, blankInput_eq hnone hsingle]
        exact keepSigned_transaction w _

/-- **The bytes that are signed** exist if the indices are in range and the script code can be
parsed. They are those of the signed copy, and the type. -/
lemma preimage_eq_ok {c : set.Ledger} {w : Frame c} {b : Bytes} :
    preimage code (w.transaction (xs.map (·.record set)) (ys.map (·.record set))) index t = .ok b ↔
      index < xs.length ∧ (t.isSingle = true → index < ys.length) ∧
        ∃ code', code.removeOpcode Opcode.codeSeparator = .ok code' ∧
          b = (w.transaction ((signedInputs code' index t xs).map (·.record set))
            ((signedOutputs index t ys).map (·.record set))).serialize ++
              Bytes.ofNatLE 4 t.value.toNat := by
  unfold preimage
  rw [signedCopy_transaction]
  by_cases hin : xs.length ≤ index
  · simp [hin, Nat.not_lt.2 hin]
  · by_cases hout : t.isSingle = true ∧ ys.length ≤ index
    · simp [hin, hout, Nat.not_lt.2 hout.2]
    · have hlt : t.isSingle = true → index < ys.length := fun h =>
        Nat.not_le.1 fun hle => hout ⟨h, hle⟩
      cases hcode : code.removeOpcode Opcode.codeSeparator with
      | error e => simp [hin, hout]
      | ok code' =>
        rw [if_neg hin, if_neg hout, Except.map_ok, Except.ok_bind]
        constructor
        · intro h
          cases h
          exact ⟨Nat.not_le.1 hin, hlt, code', rfl, rfl⟩
        · rintro ⟨-, -, _, hsame, rfl⟩
          cases hsame
          rfl

end CoinScript.SignatureHash
