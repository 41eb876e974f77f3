import CoinScript.Proofs.Script.Tiling
import CoinScript.Proofs.SignatureHash.SignedCopy

/-!
Signature hashes byte by byte.

For transactions of the standard layout the bytes that are signed are written down here in one
go, from plain data and without a copy of the transaction. The main statement says that these are
the bytes whose double digest a signature hash is, and for which indices and scripts there is
none.
-/

namespace CoinScript

/-! ### The bytes that are signed -/

/-- A transaction of the standard layout. -/
structure PlainTransaction where
  version : Int32
  inputs : List Input
  outputs : List Output
  lockTime : UInt32

/-- The bytes of an input with some script and sequence. -/
def Input.bytes (x : Input) (script : Bytes) (sequence : UInt32) : Bytes :=
  x.hash.bytes ++ Bytes.ofNatLE 4 x.index.toNat ++ CompactSize.encode script.length ++ script ++
    Bytes.ofNatLE 4 sequence.toNat

def Output.bytes (y : Output) : Bytes :=
  Bytes.ofIntLE 8 y.value.toInt ++ CompactSize.encode y.script.bytes.length ++ y.script.bytes

namespace PlainTransaction

def transaction (p : PlainTransaction) : Transaction :=
  ⟨.mk Standard.bitcoin .transaction
    [some (.int p.version.toInt), some (.records (p.inputs.map (·.record Standard.bitcoin))),
      some (.records (p.outputs.map (·.record Standard.bitcoin))), some (.uint p.lockTime.toNat)]⟩

variable (p : PlainTransaction) (code : Bytes) (index : Nat) (t : UInt32)

/-- All inputs, or under the bit `0x80` one of them. The script of the signed input is `code` and
those of others are empty. In the modes 2 and 3 the sequences of others are zero. -/
def signedInputBytes : Bytes :=
  if t &&& 0x80 = 0 then
    CompactSize.encode p.inputs.length ++ p.inputs.zipIdx.flatMap fun (x, i) =>
      if i = index then x.bytes code x.sequence
      else x.bytes [] (if t &&& 0x1f = 2 ∨ t &&& 0x1f = 3 then 0 else x.sequence)
  else
    CompactSize.encode 1 ++ p.inputs[index]?.toList.flatMap fun x => x.bytes code x.sequence

/-- No outputs in mode 2, those up to the index in mode 3, all but the last of them with the value
minus one and an empty script, and otherwise all outputs. -/
def signedOutputBytes : Bytes :=
  if t &&& 0x1f = 2 then CompactSize.encode 0
  else if t &&& 0x1f = 3 then
    CompactSize.encode (index + 1) ++
      (List.replicate index (List.replicate 8 0xff ++ [0])).flatten ++
      p.outputs[index]?.toList.flatMap Output.bytes
  else CompactSize.encode p.outputs.length ++ p.outputs.flatMap Output.bytes

/-- Version, inputs, outputs, lock time and type. -/
def signedBytes : Bytes :=
  Bytes.ofIntLE 4 p.version.toInt ++ p.signedInputBytes code index t ++
    p.signedOutputBytes index t ++ Bytes.ofNatLE 4 p.lockTime.toNat ++ Bytes.ofNatLE 4 t.toNat

end PlainTransaction

/-! ### Records as bytes -/

lemma Record.writeAll_map {α : Type} (f : α → Record) (as : List α) :
    writeAll (as.map f) = as.flatMap fun a => (f a).serialize := by
  induction as with
  | nil => simp [writeAll]
  | cons a as ih => rw [List.map_cons, writeAll, ih, List.flatMap_cons]

lemma Input.serialize_record (x : Input) :
    (x.record Standard.bitcoin).serialize = x.bytes x.script.bytes x.sequence := by
  have hrecord : (x.record Standard.bitcoin).serialize =
      (x.outpoint Standard.bitcoin).serialize ++ (CompactSize.encodeBytes x.script.bytes ++
        (Bytes.ofNatLE 4 x.sequence.toNat ++ [])) := rfl
  have houtpoint : (x.outpoint Standard.bitcoin).serialize =
      x.hash.bytes ++ (Bytes.ofNatLE 4 x.index.toNat ++ []) := rfl
  rw [hrecord, houtpoint]
  simp only [bytes, CompactSize.encodeBytes, List.append_nil, List.append_assoc]

lemma Output.serialize_record (y : Output) :
    (y.record Standard.bitcoin).serialize = y.bytes := by
  have hrecord : (y.record Standard.bitcoin).serialize =
      Bytes.ofIntLE 8 y.value.toInt ++ (CompactSize.encodeBytes y.script.bytes ++ []) := rfl
  rw [hrecord]
  simp only [bytes, CompactSize.encodeBytes, List.append_nil, List.append_assoc]

namespace PlainTransaction

variable (p : PlainTransaction)

def frame : Frame Standard.bitcoinLedger where
  front := [some (.int p.version.toInt)]
  back := [some (.uint p.lockTime.toNat)]
  length_front := rfl
  length_back := rfl

/-- **Transactions of the standard layout** are the well-formed records of their kind. -/
lemma exists_of_wellFormed {tx : Transaction}
    (h : tx.record.WellFormed Standard.bitcoin .transaction) :
    ∃ p : PlainTransaction, tx = p.transaction := by
  rcases tx with ⟨r⟩
  cases h with
  | mk settled =>
    obtain ⟨v, _, rfl, hversion, settled⟩ := settled.cons_of_always rfl
    obtain ⟨ins, _, rfl, hins, settled⟩ := settled.cons_of_always rfl
    obtain ⟨outs, _, rfl, houts, settled⟩ := settled.cons_of_always rfl
    obtain ⟨l, _, rfl, hlock, settled⟩ := settled.cons_of_always rfl
    cases settled
    obtain ⟨version, rfl⟩ := matches_int32.1 hversion
    obtain ⟨xs, rfl⟩ := Input.exists_of_matches Standard.bitcoinLedger.parts hins
    obtain ⟨ys, rfl⟩ := Output.exists_of_matches Standard.bitcoinLedger.parts houts
    obtain ⟨lockTime, rfl⟩ := matches_uint32.1 hlock
    exact ⟨⟨version, xs, ys, lockTime⟩, rfl⟩

lemma transaction_wellFormed : p.transaction.record.WellFormed Standard.bitcoin .transaction := by
  have hins := Input.wellFormed_of_mem Standard.bitcoinLedger.parts p.inputs
  have houts := Output.wellFormed_of_mem Standard.bitcoinLedger.parts p.outputs
  exact .mk (.filled rfl (matches_int32.2 ⟨_, rfl⟩) (.filled rfl (.vector hins)
    (.filled rfl (.vector houts) (.filled rfl (matches_uint32.2 ⟨_, rfl⟩) .nil))))

lemma transaction_injective : Function.Injective transaction := by
  intro p q h
  rcases p with ⟨version, inputs, outputs, lockTime⟩
  rcases q with ⟨version', inputs', outputs', lockTime'⟩
  simp only [transaction, Transaction.mk.injEq, Record.mk.injEq, List.cons.injEq,
    Option.some.injEq, FieldValue.int.injEq, FieldValue.records.injEq, FieldValue.uint.injEq,
    Int32.toInt_inj, UInt32.toNat_inj, Input.map_record_inj, Output.map_record_inj, true_and,
    and_true] at h
  simp [h]

lemma serialize_frame (xs : List Input) (ys : List Output) :
    (p.frame.transaction (xs.map (·.record Standard.bitcoin))
      (ys.map (·.record Standard.bitcoin))).serialize =
      Bytes.ofIntLE 4 p.version.toInt ++
        (CompactSize.encode xs.length ++ xs.flatMap fun x => x.bytes x.script.bytes x.sequence) ++
        (CompactSize.encode ys.length ++ ys.flatMap Output.bytes) ++
        Bytes.ofNatLE 4 p.lockTime.toNat := by
  have hrecord (ins outs : List Record) : (p.frame.transaction ins outs).serialize =
      Bytes.ofIntLE 4 p.version.toInt ++ (CompactSize.encode ins.length ++ Record.writeAll ins ++
        (CompactSize.encode outs.length ++ Record.writeAll outs ++
          (Bytes.ofNatLE 4 p.lockTime.toNat ++ []))) := rfl
  rw [hrecord, Record.writeAll_map, Record.writeAll_map]
  simp only [Input.serialize_record, Output.serialize_record, List.length_map, List.append_nil,
    List.append_assoc]

variable {index : Nat} {t : UInt32}

lemma signedInputBytes_eq (code : Script) (h : index < p.inputs.length) :
    p.signedInputBytes code.bytes index t =
      CompactSize.encode (SignatureHash.signedInputs code index ⟨t⟩ p.inputs).length ++
        (SignatureHash.signedInputs code index ⟨t⟩ p.inputs).flatMap fun x =>
          x.bytes x.script.bytes x.sequence := by
  unfold signedInputBytes SignatureHash.signedInputs
  by_cases hacp : t &&& 0x80 = 0
  · have hall : SighashType.anyoneCanPay ⟨t⟩ = false := by simp [SighashType.anyoneCanPay, hacp]
    rw [if_pos hacp, hall, if_neg Bool.false_ne_true, List.length_mapIdx,
      List.mapIdx_eq_zipIdx_map, List.flatMap_map]
    congr 2
    funext p
    obtain ⟨x, i⟩ := p
    unfold SignatureHash.signedInput SighashType.isNone SighashType.isSingle SighashType.base
    by_cases hi : i = index
    · simp [hi, Input.bytes]
    · simp [hi, Input.bytes, Script.empty]
  · have hone : SighashType.anyoneCanPay ⟨t⟩ = true := by simp [SighashType.anyoneCanPay, hacp]
    rw [if_neg hacp, hone, if_pos rfl, List.getElem?_mapIdx, List.getElem?_eq_getElem h]
    simp [SignatureHash.signedInput, Input.bytes]

lemma signedOutputBytes_eq (h : t &&& 0x1f = 3 → index < p.outputs.length) :
    p.signedOutputBytes index t =
      CompactSize.encode (SignatureHash.signedOutputs index ⟨t⟩ p.outputs).length ++
        (SignatureHash.signedOutputs index ⟨t⟩ p.outputs).flatMap Output.bytes := by
  unfold signedOutputBytes SignatureHash.signedOutputs SighashType.isNone SighashType.isSingle
    SighashType.base
  by_cases hnone : t &&& 0x1f = 2
  · simp [hnone]
  · by_cases hsingle : t &&& 0x1f = 3
    · have hnull : Output.null.bytes = List.replicate 8 0xff ++ [0] := rfl
      have hlast := List.getElem?_eq_getElem (h hsingle)
      simp [hsingle, hlast, List.flatMap_replicate, hnull]
    · simp [hnone, hsingle]

/-- **A signature hash** is the double digest of the bytes written down here, of the transaction
with the script code from which all separators are cut. There is none if the index is not that of
an input, or in mode 3 of an output, or if the script code cannot be parsed. -/
theorem digest_eq_signedBytes {tx : Transaction}
    (h : tx.record.WellFormed Standard.bitcoin .transaction) (code : Script) (index : Nat)
    (t : UInt32) :
    ∃ p : PlainTransaction, tx = p.transaction ∧
      SignatureHash.preimage code tx index ⟨t⟩ =
        (if p.inputs.length ≤ index then .error (.inputOutOfRange index p.inputs.length)
        else if t &&& 0x1f = 3 ∧ p.outputs.length ≤ index then
          .error (.outputOutOfRange index p.outputs.length)
        else (fun is => p.signedBytes (code.bytesWithout Opcode.codeSeparator is) index t) <$>
          code.instructions) ∧
      SignatureHash.digest code tx index ⟨t⟩ =
        doubleSha256 <$> SignatureHash.preimage code tx index ⟨t⟩ ∧
      ∀ e, code.instructions = .error e → ∃ fault, e = .parse fault := by
  obtain ⟨p, rfl⟩ := exists_of_wellFormed h
  refine ⟨p, rfl, ?_, rfl, fun e he => Script.instructionsFrom_eq_error he⟩
  have hcopy : SignatureHash.signedCopy code p.transaction index ⟨t⟩ = _ :=
    SignatureHash.signedCopy_transaction p.frame
  have hsingle : SighashType.isSingle ⟨t⟩ = true ↔ t &&& 0x1f = 3 := by
    simp [SighashType.isSingle, SighashType.base]
  unfold SignatureHash.preimage
  rw [hcopy]
  simp only [hsingle]
  by_cases hin : p.inputs.length ≤ index
  · rw [if_pos hin, if_pos hin]
    rfl
  rw [if_neg hin, if_neg hin]
  by_cases hout : t &&& 0x1f = 3 ∧ p.outputs.length ≤ index
  · rw [if_pos hout, if_pos hout]
    rfl
  rw [if_neg hout, if_neg hout, Script.removeOpcode_eq code (by decide)]
  cases code.instructions with
  | error e => rfl
  | ok is =>
    have hinputs := p.signedInputBytes_eq (t := t) ⟨code.bytesWithout Opcode.codeSeparator is⟩
      (Nat.not_le.1 hin)
    have houtputs := p.signedOutputBytes_eq fun ht =>
      Nat.not_le.1 fun hle => hout ⟨ht, hle⟩
    rw [Except.map_ok, Except.map_ok, Except.map_ok, Except.ok_bind, serialize_frame, ← hinputs,
      ← houtputs]
    rfl

def twofold : PlainTransaction where
  version := 2
  inputs := [⟨.zero, 0, ⟨[0x51]⟩, 7⟩, ⟨.zero, 1, ⟨[0x52]⟩, 8⟩]
  outputs := [⟨5, ⟨[0x53]⟩⟩, ⟨6, ⟨[0x54]⟩⟩]
  lockTime := 9

theorem twofold_signedBytes :
    twofold.transaction.record.WellFormed Standard.bitcoin .transaction ∧
      SignatureHash.digest ⟨[0x51, 0xab, 0x01, 0xab]⟩ twofold.transaction 1 ⟨3⟩ =
        .ok (doubleSha256 ([2, 0, 0, 0] ++
          [2] ++ List.replicate 32 0 ++ [0, 0, 0, 0] ++ [0] ++ [0, 0, 0, 0] ++
          List.replicate 32 0 ++ [1, 0, 0, 0] ++ [3, 0x51, 0x01, 0xab] ++ [8, 0, 0, 0] ++
          [2] ++ List.replicate 8 0xff ++ [0] ++ [6, 0, 0, 0, 0, 0, 0, 0] ++ [1, 0x54] ++
          [9, 0, 0, 0] ++ [3, 0, 0, 0])) := by
  refine ⟨twofold.transaction_wellFormed, ?_⟩
  obtain ⟨p, hp, hpreimage, hdigest, -⟩ :=
    digest_eq_signedBytes twofold.transaction_wellFormed ⟨[0x51, 0xab, 0x01, 0xab]⟩ 1 3
  obtain rfl := transaction_injective hp
  rw [hdigest, hpreimage]
  rfl

end PlainTransaction

end CoinScript
