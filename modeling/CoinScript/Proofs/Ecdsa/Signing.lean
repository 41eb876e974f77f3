import CoinScript.Ecdsa
import CoinScript.Proofs.Ecdsa.Der
import CoinScript.Proofs.Ecdsa.Key

/-!
Signatures verify under the key of the secret that made them.

A signature under the nonce `k` has `r` from the point `k • G` and `s = (z + r * d) / k`. The
verifier comes back to `k • G`, or to its negative when `s` was moved to the lower half, and the
two have the same first coordinate.
-/

namespace CoinScript.Ecdsa

open Curve

variable {d : SecretKey} {k : Nat} {sig : Signature}

/-! ### Scalars -/

lemma n_pos : 0 < n := by decide

lemma cast_ne_zero {a : Nat} (ha : 0 < a) (hlt : a < n) : (a : ZMod n) ≠ 0 := by
  rw [Ne, ZMod.natCast_eq_zero_iff]
  exact Nat.not_dvd_of_pos_of_lt ha hlt

lemma cast_inv (a : Nat) : (Modular.inv n a : ZMod n) = (a : ZMod n)⁻¹ :=
  Modular.cast_inv (by decide) (by decide) a

lemma lower_spec {r s : Nat} (hr : 0 < r) (r_lt : r < n) (hs : 0 < s) (s_lt : s < n) :
    (Signature.lower ⟨r, s⟩).Canonical ∧ (Signature.lower ⟨r, s⟩).r = r ∧
      (((Signature.lower ⟨r, s⟩).s : ZMod n) = s ∨ ((Signature.lower ⟨r, s⟩).s : ZMod n) = -s) := by
  by_cases hlow : (Signature.mk r s).isLow
  · rw [Signature.lower, if_pos hlow]
    exact ⟨⟨hr, r_lt, hs, of_decide_eq_true hlow⟩, rfl, .inl rfl⟩
  · have hhigh : ¬ s ≤ n / 2 := fun h => hlow (decide_eq_true h)
    have hodd : n % 2 = 1 := by decide
    rw [Signature.lower, if_neg hlow]
    refine ⟨⟨hr, r_lt, Nat.sub_pos_of_lt s_lt, ?_⟩, rfl, .inr ?_⟩
    · show n - s ≤ n / 2
      omega
    · show ((n - s : Nat) : ZMod n) = -s
      rw [Nat.cast_sub s_lt.le, ZMod.natCast_self, zero_sub]

/-! ### Signing -/

lemma exists_of_signWith? {z : Nat} (h : signWith? d z k = some sig) :
    ∃ point, coordinates? (k • base) = some point ∧ (k : ZMod n) ≠ 0 ∧ sig.Canonical ∧
      sig.r = point.x % n ∧
      ((sig.s : ZMod n) = (k : ZMod n)⁻¹ * (z + sig.r * d.scalar) ∨
        (sig.s : ZMod n) = -((k : ZMod n)⁻¹ * (z + sig.r * d.scalar))) := by
  unfold signWith? at h
  split at h
  · cases h
  rename_i hk
  obtain ⟨k_ne, k_lt⟩ := not_or.1 hk
  rw [not_le] at k_lt
  rw [multiple?_eq (k_lt.trans (by decide)) coordinates?_base] at h
  split at h
  · cases h
  rename_i point hpoint
  dsimp only at h
  split at h
  · cases h
  rename_i hne
  obtain ⟨r_ne, s_ne⟩ := not_or.1 hne
  cases h
  -- lowering may have negated the second number
  obtain ⟨hcanonical, hr, hs⟩ := lower_spec (Nat.pos_of_ne_zero r_ne) (Nat.mod_lt _ n_pos)
    (Nat.pos_of_ne_zero s_ne) (Nat.mod_lt _ n_pos)
  refine ⟨point, hpoint, cast_ne_zero (Nat.pos_of_ne_zero k_ne) k_lt, hcanonical, hr, ?_⟩
  rw [hr]
  push_cast [ZMod.natCast_mod, cast_inv] at hs ⊢
  exact hs

lemma verifier_point {z w : Nat} {r s : Nat} (hk : (k : ZMod n) ≠ 0) (hs0 : (s : ZMod n) ≠ 0)
    (hw : (w : ZMod n) = (s : ZMod n)⁻¹)
    (hs : (s : ZMod n) = (k : ZMod n)⁻¹ * (z + r * d.scalar) ∨
      (s : ZMod n) = -((k : ZMod n)⁻¹ * (z + r * d.scalar))) :
    (z * w % n) • base + (r * w % n) • d.point = k • base ∨
      (z * w % n) • base + (r * w % n) • d.point = -(k • base) := by
  have hsum : (z * w % n) • base + (r * w % n) • d.point =
      (z * w % n + r * w % n * d.scalar) • base := by
    rw [SecretKey.point, smul_smul, ← add_nsmul]
  rw [hsum]
  -- the inverse of `s` takes the factor away again, up to the sign of `s`
  rcases hs with hs | hs
  · left
    rw [nsmul_base_eq_iff]
    push_cast [ZMod.natCast_mod]
    rw [hw]
    field_simp
    rw [hs]
    field_simp
  · right
    rw [eq_neg_iff_add_eq_zero, ← add_nsmul, ← zero_nsmul base, nsmul_base_eq_iff]
    push_cast [ZMod.natCast_mod]
    rw [hw]
    field_simp
    rw [hs]
    field_simp
    ring

lemma verify_of_signWith? {digest : Hash256} (h : signWith? d (scalar digest) k = some sig) :
    sig.Canonical ∧ verify d.publicKey digest sig = true := by
  obtain ⟨point, hpoint, hk, hcanonical, hr, hs⟩ := exists_of_signWith? h
  have hw := cast_inv sig.s
  have hlt (a : Nat) : a % n < Nat.pow 2 256 := (Nat.mod_lt a n_pos).trans (by decide)
  -- a point and its negative have the first coordinate in common, and only that is compared
  have hx : ∃ y, combine? (scalar digest * Modular.inv n sig.s % n)
      (sig.r * Modular.inv n sig.s % n) d.publicKey = some ⟨point.x, y⟩ := by
    rw [combine?_eq (hlt _) (hlt _) d.coordinates?_point]
    rcases verifier_point hk (cast_ne_zero hcanonical.s_pos hcanonical.s_lt) hw hs with h | h
    · rw [h]
      exact ⟨point.y, hpoint⟩
    · rw [h]
      exact coordinates?_neg hpoint
  obtain ⟨y, hy⟩ := hx
  refine ⟨hcanonical, ?_⟩
  have hvalid : ¬ (sig.r = 0 ∨ sig.s = 0 ∨ (!sig.isLow) = true) := by
    simp [hcanonical.r_pos.ne', hcanonical.s_pos.ne', hcanonical.isLow]
  rw [verify, if_neg hvalid]
  simp only [hy]
  rw [hr]
  exact beq_self_eq_true _

lemma exists_signFixed (d : SecretKey) (z : Nat) : ∃ k, signWith? d z k = some (signFixed d z) := by
  have hfixed : (signWith? d z 1).or (signWith? d z 2) = some (signFixed d z) :=
    (Option.some_get _).symm
  rcases Option.or_eq_some_iff.1 hfixed with hone | ⟨-, htwo⟩
  · exact ⟨1, hone⟩
  · exact ⟨2, htwo⟩

lemma exists_signFrom (d : SecretKey) (z attempts : Nat) (g : Generator) :
    ∃ k, signWith? d z k = some (signFrom d z attempts g) := by
  induction attempts generalizing g with
  | zero => exact exists_signFixed d z
  | succ attempts ih =>
    rw [signFrom]
    cases hnonce : signWith? d z g.next.value.toNatBE with
    | some sig => exact ⟨_, hnonce⟩
    | none => exact ih _

/-- **Every digest is signed**, and its signature is canonical and verifies under the public key. -/
theorem verify_sign (d : SecretKey) (digest : Hash256) :
    (sign d digest).Canonical ∧ verify d.publicKey digest (sign d digest) = true := by
  obtain ⟨k, hk⟩ := exists_signFrom d (scalar digest) 64
    (Generator.seed (Bytes.ofNatBE 32 d.scalar ++ Bytes.ofNatBE 32 (scalar digest)))
  exact verify_of_signWith? hk

end CoinScript.Ecdsa
