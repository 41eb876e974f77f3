import CoinScript.Proofs.SignatureHash.SignedCopy

/-!
Signing inputs one after another.

What is signed of a transaction does not depend on the scripts of its inputs. A script that is made
for one input is thus the same whether or not others have been made before.
-/

namespace CoinScript

/-- An input to be signed, and how the script that unlocks it is made of the digest. -/
structure Signing where
  code : Script
  index : Nat
  type : SighashType
  unlock : Hash256 → Except Fault Script

def Signing.sign (s : Signing) (tx : Transaction) : Except Fault Transaction := do
  let digest ← SignatureHash.digest s.code tx s.index s.type
  tx.setInputScript s.index (← s.unlock digest)

def Transaction.signAll (tx : Transaction) (order : List Signing) : Except Fault Transaction :=
  order.foldlM (fun tx s => s.sign tx) tx

def Input.withScript (s : Script) (x : Input) : Input := { x with script := s }

namespace SignatureHash

variable {set : SchemaSet} {c : set.Ledger} {w : Frame c} {xs : List Input} {ys : List Output}
  {k : Nat} {s : Script}

/-! ### Scripts of inputs -/

lemma setInputScript_transaction (outs : List Record) (hk : k < xs.length) :
    (w.transaction (xs.map (·.record set)) outs).setInputScript k s =
      .ok (w.transaction ((xs.modify k (Input.withScript s)).map (·.record set)) outs) := by
  have hx : (xs.map (·.record set))[k]? = some (xs[k].record set) := by
    rw [List.getElem?_map, List.getElem?_eq_getElem hk, Option.map_some]
  have hset : (xs[k].record set).set FieldName.scriptSig (.script s) =
      .ok ((xs[k].withScript s).record set) := Input.set_script _ c.parts s
  have hmodify : (xs.map (·.record set)).set k ((xs[k].withScript s).record set) =
      (xs.modify k (Input.withScript s)).map (·.record set) := by
    refine List.ext_getElem? fun i => ?_
    rw [List.getElem?_set, List.getElem?_map, List.getElem?_map, List.getElem?_modify]
    by_cases hi : k = i
    · subst hi
      simp [hk]
    · simp [hi]
  unfold Transaction.setInputScript Transaction.editInput
  rw [w.editInputs, hx]
  simp only [hset, Except.ok_bind, hmodify]
  rfl

lemma setInputScript_eq_error (outs : List Record) (hk : xs.length ≤ k) :
    (w.transaction (xs.map (·.record set)) outs).setInputScript k s =
      .error (.inputOutOfRange k xs.length) := by
  have hx : (xs.map (·.record set))[k]? = none := by
    rw [List.getElem?_map, List.getElem?_eq_none_iff.2 hk, Option.map_none]
  unfold Transaction.setInputScript Transaction.editInput
  rw [w.editInputs, hx]
  simp only [List.length_map]
  rfl

variable {code : Script} {index : Nat} {t : SighashType}

lemma signedInputs_modify :
    signedInputs code index t (xs.modify k (Input.withScript s)) =
      signedInputs code index t xs := by
  have hmap : (xs.modify k (Input.withScript s)).mapIdx (signedInput code index t) =
      xs.mapIdx (signedInput code index t) := by
    refine List.ext_getElem? fun i => ?_
    rw [List.getElem?_mapIdx, List.getElem?_mapIdx, List.getElem?_modify]
    have hsigned (x : Input) :
        signedInput code index t i (x.withScript s) = signedInput code index t i x := rfl
    cases xs[i]? with
    | none => rfl
    | some x => by_cases hk : k = i <;> simp [hk, hsigned]
  unfold signedInputs
  rw [hmap]

lemma preimage_modify :
    preimage code (w.transaction ((xs.modify k (Input.withScript s)).map (·.record set))
        (ys.map (·.record set))) index t =
      preimage code (w.transaction (xs.map (·.record set)) (ys.map (·.record set))) index t := by
  unfold preimage
  rw [signedCopy_transaction, signedCopy_transaction, List.length_modify]
  simp only [signedInputs_modify]

lemma digest_modify :
    digest code (w.transaction ((xs.modify k (Input.withScript s)).map (·.record set))
        (ys.map (·.record set))) index t =
      digest code (w.transaction (xs.map (·.record set)) (ys.map (·.record set))) index t := by
  unfold digest
  rw [preimage_modify]

lemma setInputScript_digest (c : set.Ledger) {tx : Transaction}
    (h : tx.record.WellFormed set .transaction) (hk : k < tx.inputs.length) (s : Script) :
    ∃ tx', tx.setInputScript k s = .ok tx' ∧ tx'.record.WellFormed set .transaction ∧
      ∀ code index t, digest code tx' index t = digest code tx index t := by
  obtain ⟨w, xs, ys, rfl⟩ := Frame.exists_of_wellFormed c h
  rw [Frame.inputs_transaction, List.length_map] at hk
  exact ⟨_, setInputScript_transaction _ hk, w.wellFormed h _ _, fun _ _ _ => digest_modify⟩

/-! ### The order -/

lemma sign_transaction_eq_ok {a : Signing} {tx : Transaction} :
    a.sign (w.transaction (xs.map (·.record set)) (ys.map (·.record set))) = .ok tx ↔
      ∃ s, (digest a.code (w.transaction (xs.map (·.record set)) (ys.map (·.record set)))
          a.index a.type >>= a.unlock) = .ok s ∧ a.index < xs.length ∧
        tx = w.transaction ((xs.modify a.index (Input.withScript s)).map (·.record set))
          (ys.map (·.record set)) := by
  unfold Signing.sign
  rw [← bind_assoc, Except.bind_eq_ok]
  refine exists_congr fun s => and_congr_right fun _ => ?_
  rcases Nat.lt_or_ge a.index xs.length with hk | hk
  · rw [setInputScript_transaction _ hk, Except.ok.injEq, eq_comm, and_iff_right hk]
  · rw [setInputScript_eq_error _ hk]
    simp [Nat.not_lt.2 hk]

lemma sign_swap {a b : Signing} {tx tx' : Transaction} (hne : a.index ≠ b.index)
    (htx : ∃ (w : Frame c) (xs : List Input) (ys : List Output),
      tx = w.transaction (xs.map (·.record set)) (ys.map (·.record set)))
    (h : (a.sign tx >>= b.sign) = .ok tx') : (b.sign tx >>= a.sign) = .ok tx' := by
  obtain ⟨w, xs, ys, rfl⟩ := htx
  obtain ⟨_, ha, hb⟩ := Except.bind_eq_ok.1 h
  obtain ⟨s, hs, hka, rfl⟩ := sign_transaction_eq_ok.1 ha
  obtain ⟨u, hu, hkb, rfl⟩ := sign_transaction_eq_ok.1 hb
  rw [digest_modify] at hu
  rw [List.length_modify] at hkb
  have hfirst := sign_transaction_eq_ok.2 ⟨u, hu, hkb, rfl⟩
  have hsecond : a.sign (w.transaction
      ((xs.modify b.index (Input.withScript u)).map (·.record set)) (ys.map (·.record set))) =
        .ok _ :=
    sign_transaction_eq_ok.2 ⟨s, by rw [digest_modify, hs], by rwa [List.length_modify], rfl⟩
  rw [hfirst, Except.ok_bind, hsecond, List.modify_modify_ne _ _ _ hne]

/-- **Inputs may be signed in any order.** -/
lemma signAll_perm (c : set.Ledger) {tx tx' : Transaction}
    (h : tx.record.WellFormed set .transaction) {order order' : List Signing}
    (hperm : order.Perm order') (hdistinct : (order.map (·.index)).Nodup) :
    tx.signAll order = .ok tx' ↔ tx.signAll order' = .ok tx' := by
  have hdistinct' := (hperm.map (·.index)).nodup_iff.1 hdistinct
  have hframe := Frame.exists_of_wellFormed c h
  have hstep (a : Signing) (tx tx' : Transaction)
      (htx : ∃ (w : Frame c) (xs : List Input) (ys : List Output),
        tx = w.transaction (xs.map (·.record set)) (ys.map (·.record set)))
      (ha : a.sign tx = .ok tx') : ∃ (w : Frame c) (xs : List Input) (ys : List Output),
        tx' = w.transaction (xs.map (·.record set)) (ys.map (·.record set)) := by
    obtain ⟨w, xs, ys, rfl⟩ := htx
    obtain ⟨s, -, -, rfl⟩ := sign_transaction_eq_ok.1 ha
    exact ⟨w, _, ys, rfl⟩
  constructor
  · exact Except.foldlM_eq_ok_of_perm hstep (fun _ _ h => h.symm)
      (fun _ _ _ _ => sign_swap) hperm (List.pairwise_map.1 hdistinct) hframe
  · exact Except.foldlM_eq_ok_of_perm hstep (fun _ _ h => h.symm)
      (fun _ _ _ _ => sign_swap) hperm.symm (List.pairwise_map.1 hdistinct') hframe

end SignatureHash

end CoinScript
