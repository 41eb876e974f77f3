import Mathlib.Data.List.Forall2
import Mathlib.Data.List.NodupEquivFin
import CoinScript.Proofs.Except
import CoinScript.Machine.Signature

/-!
Matching signatures to keys.

Keys are tried in turn, each against the first signature that is not matched yet. Taking the first
key that fits never spoils a matching: whatever comes behind it in some matching can be matched
behind it still. So the signatures are found to match exactly if there is any way to match them in
order.
-/

namespace CoinScript.Signature

variable {check : Bytes → Bytes → Except Fault Bool} {sig key : Bytes} {sigs keys : List Bytes}

/-! ### What is tried -/

/-- Matches signatures to keys, and shows every pair that is tried on the way. -/
def matchTraced (check : Bytes → Bytes → Except Fault Bool) :
    (signatures keys : List Bytes) → Except Fault Bool × List (Bytes × Bytes)
  | [], _ => (.ok true, [])
  | _ :: _, [] => (.ok false, [])
  | sig :: sigs, key :: keys =>
    match check sig key with
    | .error e => (.error e, [(sig, key)])
    | .ok valid =>
      let left := if valid then sigs else sig :: sigs
      if keys.length < left.length then (.ok false, [(sig, key)])
      else ((matchTraced check left keys).1, (sig, key) :: (matchTraced check left keys).2)

def tried (check : Bytes → Bytes → Except Fault Bool) (sigs keys : List Bytes) :
    List (Bytes × Bytes) := (matchTraced check sigs keys).2

lemma matchTraced_fst (sigs keys : List Bytes) :
    (matchTraced check sigs keys).1 = matchAll check sigs keys := by
  induction keys generalizing sigs with
  | nil => cases sigs <;> rfl
  | cons key keys ih =>
    cases sigs with
    | nil => rfl
    | cons sig sigs =>
      rw [matchTraced, matchAll]
      cases check sig key with
      | error e => rfl
      | ok valid =>
        cases valid with
        | true =>
          simp only [if_true, Except.ok_bind, ← ih]
          split <;> rfl
        | false =>
          simp only [Bool.false_eq_true, if_false, Except.ok_bind, ← ih]
          split <;> rfl

lemma tried_prefix (sigs keys : List Bytes) :
    (tried check sigs keys).map Prod.snd <+: keys := by
  unfold tried
  induction keys generalizing sigs with
  | nil => cases sigs <;> exact List.nil_prefix
  | cons key keys ih =>
    cases sigs with
    | nil => exact List.nil_prefix
    | cons sig sigs =>
      have hone : [key] <+: key :: keys := ⟨keys, rfl⟩
      rw [matchTraced]
      cases check sig key with
      | error e => exact hone
      | ok valid =>
        dsimp only
        generalize (if valid = true then sigs else sig :: sigs) = left
        split
        · exact hone
        · exact List.cons_prefix_cons.2 ⟨rfl, ih left⟩

lemma exists_matchAll (h : ∀ p ∈ tried check sigs keys, ∃ valid, check p.1 p.2 = .ok valid) :
    ∃ valid, matchAll check sigs keys = .ok valid := by
  rw [← matchTraced_fst]
  unfold tried at h
  induction keys generalizing sigs with
  | nil => cases sigs <;> exact ⟨_, rfl⟩
  | cons key keys ih =>
    cases sigs with
    | nil => exact ⟨true, rfl⟩
    | cons sig sigs =>
      rw [matchTraced] at h ⊢
      cases hcheck : check sig key with
      | error e =>
        rw [hcheck] at h
        obtain ⟨valid, hvalid⟩ := h (sig, key) List.mem_cons_self
        rw [hcheck] at hvalid
        cases hvalid
      | ok valid =>
        rw [hcheck] at h
        dsimp only at h ⊢
        generalize (if valid = true then sigs else sig :: sigs) = left at h ⊢
        split
        · exact ⟨false, rfl⟩
        next hlt =>
          rw [if_neg hlt] at h
          exact ih fun p hp => h p (List.mem_cons_of_mem _ hp)

/-! ### Matchings in order -/

/-- Whether signatures can be matched to keys in order, in any way. -/
abbrev Matches (check : Bytes → Bytes → Except Fault Bool) (sigs keys : List Bytes) : Prop :=
  List.SublistForall₂ (fun sig key => check sig key = .ok true) sigs keys

lemma Matches.length_le (h : Matches check sigs keys) : sigs.length ≤ keys.length := by
  obtain ⟨matched, hall, hsub⟩ := List.sublistForall₂_iff.1 h
  rw [hall.length_eq]
  exact hsub.length_le

lemma Matches.tail (h : Matches check (sig :: sigs) keys) : Matches check sigs keys.tail := by
  induction keys with
  | nil => cases h
  | cons key keys ih =>
    cases h with
    | cons _ hrest => exact hrest
    | cons_right hrest =>
      -- the first key is not needed, so by induction not even the second one is
      have hlater := ih hrest
      cases keys with
      | nil => cases hrest
      | cons key' keys => exact hlater.cons_right

lemma matches_cons_of_fits (h : check sig key = .ok true) :
    Matches check (sig :: sigs) (key :: keys) ↔ Matches check sigs keys :=
  ⟨Matches.tail, .cons h⟩

lemma matches_cons_of_misfits (h : check sig key = .ok false) :
    Matches check (sig :: sigs) (key :: keys) ↔ Matches check (sig :: sigs) keys := by
  constructor
  · intro hmatches
    cases hmatches with
    | cons hfits _ =>
      rw [h] at hfits
      cases hfits
    | cons_right hrest => exact hrest
  · exact .cons_right

/-- **Taking the first key that fits** finds a matching if there is any. -/
lemma matchAll_iff {valid : Bool} (h : matchAll check sigs keys = .ok valid) :
    valid = true ↔ Matches check sigs keys := by
  induction keys generalizing sigs with
  | nil =>
    cases sigs with
    | nil =>
      cases h
      exact iff_of_true rfl .nil
    | cons sig sigs =>
      cases h
      exact iff_of_false Bool.false_ne_true nofun
  | cons key keys ih =>
    cases sigs with
    | nil =>
      cases h
      exact iff_of_true rfl .nil
    | cons sig sigs =>
      -- the early stop loses nothing: more signatures are left than keys
      have hshort {left : List Bytes} (hlt : keys.length < left.length) :
          ¬ Matches check left keys := fun hm => Nat.not_le.2 hlt hm.length_le
      rw [matchAll] at h
      cases hcheck : check sig key with
      | error e =>
        rw [hcheck] at h
        cases h
      | ok fits =>
        rw [hcheck, Except.ok_bind] at h
        cases fits with
        | true =>
          rw [matches_cons_of_fits hcheck]
          by_cases hlt : keys.length < sigs.length
          · simp only [if_true, hlt] at h
            cases h
            exact iff_of_false Bool.false_ne_true (hshort hlt)
          · simp only [if_true, hlt, if_false] at h
            exact ih h
        | false =>
          rw [matches_cons_of_misfits hcheck]
          by_cases hlt : keys.length < (sig :: sigs).length
          · simp only [Bool.false_eq_true, if_false, hlt, if_true] at h
            cases h
            exact iff_of_false Bool.false_ne_true (hshort hlt)
          · simp only [Bool.false_eq_true, if_false, hlt] at h
            exact ih h

lemma matches_reverse : Matches check sigs.reverse keys.reverse ↔ Matches check sigs keys := by
  have hback {sigs keys : List Bytes} (h : Matches check sigs keys) :
      Matches check sigs.reverse keys.reverse := by
    obtain ⟨matched, hall, hsub⟩ := List.sublistForall₂_iff.1 h
    exact List.sublistForall₂_iff.2
      ⟨matched.reverse, List.forall₂_reverse_iff.2 hall, List.reverse_sublist.2 hsub⟩
  refine ⟨fun h => ?_, hback⟩
  have := hback h
  rwa [List.reverse_reverse, List.reverse_reverse] at this

/-- **A matching** is an increasing map from the places of the signatures to those of their keys. -/
lemma matches_iff_strictMono : Matches check sigs keys ↔
    ∃ f : Fin sigs.length → Fin keys.length, StrictMono f ∧
      ∀ j, check (sigs.get j) (keys.get (f j)) = .ok true := by
  rw [Matches, List.sublistForall₂_iff]
  constructor
  · rintro ⟨matched, hall, hsub⟩
    obtain ⟨f, hf⟩ := List.sublist_iff_exists_fin_orderEmbedding_get_eq.1 hsub
    have hlen : sigs.length = matched.length := hall.length_eq
    refine ⟨fun j => f (j.cast hlen), fun a b hab => f.strictMono hab, fun j => ?_⟩
    rw [← hf]
    exact (List.forall₂_iff_get.1 hall).2 j j.isLt (hlen ▸ j.isLt)
  · rintro ⟨f, hmono, hf⟩
    refine ⟨List.ofFn fun j => keys.get (f j), ?_, ?_⟩
    · rw [List.forall₂_iff_get]
      refine ⟨(List.length_ofFn).symm, fun j hj hj' => ?_⟩
      rw [List.get_ofFn]
      exact hf ⟨j, hj⟩
    · rw [List.sublist_iff_exists_fin_orderEmbedding_get_eq]
      refine ⟨(Fin.castOrderIso List.length_ofFn).toOrderEmbedding.trans
        (OrderEmbedding.ofStrictMono f hmono), fun j => ?_⟩
      rw [List.get_ofFn]
      rfl

end CoinScript.Signature
