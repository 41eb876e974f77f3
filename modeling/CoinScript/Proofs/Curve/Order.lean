import CoinScript.Proofs.Curve.Group
import Mathlib.GroupTheory.OrderOfElement

/-!
Multiples of points, as pairs of coordinates.

A point of the curve is a pair of reduced coordinates or nothing, and so are the sums and
multiples of points. The generator has the prime order that its scalars are reduced by.
-/

namespace CoinScript.Curve

/-! ### Coordinates -/

def coordinates? : Point → Option Affine
  | .zero => none
  | .some x y _ => some ⟨x.val, y.val⟩

variable {P Q : Point} {a : Affine}

@[simp] lemma coordinates?_eq_none_iff : coordinates? P = none ↔ P = 0 := by
  cases P with
  | zero => exact ⟨fun _ => rfl, fun _ => rfl⟩
  | some x y h => exact ⟨fun h => (Option.some_ne_none _ h).elim, fun h => nomatch h⟩

lemma coordinates?_neg (h : coordinates? P = some a) : ∃ y, coordinates? (-P) = some ⟨a.x, y⟩ := by
  cases P with
  | zero => cases h
  | some x y hP =>
    cases h
    exact ⟨_, rfl⟩

lemma eq_val {k : Nat} {x : Coordinate} (hk : k < p) (h : (k : Coordinate) = x) : k = x.val := by
  rw [← h, ZMod.val_natCast_of_lt hk]

lemma cast_cubic (x : Nat) : (cubic x : Coordinate) = x ^ 3 + 7 := by
  rw [cubic]
  push_cast [ZMod.natCast_mod]
  ring

lemma onCurve_iff : a.onCurve = true ↔
    a.x < p ∧ a.y < p ∧ (a.y : Coordinate) ^ 2 = (a.x : Coordinate) ^ 3 + 7 := by
  have hcubic : cubic a.x % p = cubic a.x := Nat.mod_mod _ _
  rw [← cast_cubic, sq, ← Nat.cast_mul, ZMod.natCast_eq_natCast_iff', hcubic]
  simp [Affine.onCurve, and_assoc]

lemma onCurve_iff_exists : a.onCurve = true ↔ ∃ P, coordinates? P = some a := by
  rw [onCurve_iff]
  constructor
  · rintro ⟨hx, hy, h⟩
    exact ⟨.some _ _ ((nonsingular_iff _ _).2 h), by
      rw [coordinates?, ZMod.val_natCast_of_lt hx, ZMod.val_natCast_of_lt hy]⟩
  · rintro ⟨_ | ⟨x, y, h⟩, hP⟩ <;> cases hP
    refine ⟨ZMod.val_lt x, ZMod.val_lt y, ?_⟩
    rw [ZMod.natCast_zmod_val, ZMod.natCast_zmod_val]
    exact (nonsingular_iff _ _).1 h

/-! ### Multiples -/

namespace Jacobian

lemma represents_ofAffine (h : coordinates? P = some a) : (ofAffine a).Represents P := by
  cases P with
  | zero => cases h
  | some x y hP =>
    cases h
    refine .affine hP one_ne_zero (show 1 < p by decide) (ZMod.val_lt y) ?_ ?_ <;>
      simp [ofAffine]

lemma Represents.affine?_eq {j : Jacobian} (h : j.Represents P) :
    j.affine? = coordinates? P := by
  cases h with
  | infinity hz => exact if_pos hz
  | @affine x y hP hz z_lt y_lt hx hy =>
    have hz' : (j.z : Coordinate) ≠ 0 := natCast_ne_zero hz z_lt
    have hinv : (Modular.inv p j.z : Coordinate) = (j.z : Coordinate)⁻¹ :=
      Modular.cast_inv (by decide) (by decide) _
    rw [affine?, if_neg hz, coordinates?, Option.some_inj, Affine.mk.injEq]
    constructor
    · apply eq_val (Nat.mod_lt _ p_pos)
      push_cast [ZMod.natCast_mod]
      rw [hinv, hx]
      field_simp
    · apply eq_val (Nat.mod_lt _ p_pos)
      push_cast [ZMod.natCast_mod]
      rw [hinv, hy]
      field_simp

end Jacobian

lemma multiple?_eq {k : Nat} (hk : k < Nat.pow 2 256) (h : coordinates? P = some a) :
    multiple? k a = coordinates? (k • P) :=
  ((Jacobian.represents_ofAffine h).mul hk).affine?_eq

/-! ### The generator -/

lemma onCurve_generator : generator.onCurve = true := by decide +kernel

def base : Point :=
  .some generator.x generator.y ((nonsingular_iff _ _).2 (onCurve_iff.1 onCurve_generator).2.2)

lemma coordinates?_base : coordinates? base = some generator := by
  obtain ⟨hx, hy, -⟩ := onCurve_iff.1 onCurve_generator
  rw [base, coordinates?, ZMod.val_natCast_of_lt hx, ZMod.val_natCast_of_lt hy]

lemma combine?_eq {k l : Nat} (hk : k < Nat.pow 2 256) (hl : l < Nat.pow 2 256)
    (h : coordinates? P = some a) : combine? k l a = coordinates? (k • base + l • P) :=
  (((Jacobian.represents_ofAffine coordinates?_base).mul hk).add
    ((Jacobian.represents_ofAffine h).mul hl)).affine?_eq

lemma base_ne_zero : base ≠ 0 := by
  rw [Ne, ← coordinates?_eq_none_iff, coordinates?_base]
  exact Option.some_ne_none _

/-- **The generator has the order of the scalars.** -/
theorem addOrderOf_base : addOrderOf base = n := by
  refine addOrderOf_eq_prime ?_ base_ne_zero
  rw [← coordinates?_eq_none_iff, ← multiple?_eq (by decide) coordinates?_base]
  decide +kernel

lemma nsmul_base_eq_iff {k l : Nat} : k • base = l • base ↔ (k : ZMod n) = l := by
  rw [nsmul_eq_nsmul_iff_modEq, addOrderOf_base, ZMod.natCast_eq_natCast_iff]

end CoinScript.Curve
