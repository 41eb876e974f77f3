import CoinScript.Proofs.Curve.Primality
import Mathlib.AlgebraicGeometry.EllipticCurve.Affine.Point
import Mathlib.Tactic.FieldSimp
import Mathlib.Tactic.LinearCombination

/-!
The arithmetic of Jacobian coordinates is that of the group of the curve.

The points of `y² = x³ + 7` over the field of the coordinates form a group, whose law is
that of chords and tangents. Three reduced numbers represent a point when the two quotients
are its coordinates, and the sums and multiples computed on such numbers represent the sums
and multiples of the points.
-/

namespace CoinScript.Curve

abbrev Coordinate : Type := ZMod p

def curve : WeierstrassCurve.Affine Coordinate := ⟨0, 0, 0, 0, 7⟩

abbrev Point : Type := WeierstrassCurve.Affine.Point curve

/-! ### The field -/

lemma natCast_ne_zero {k : Nat} (hk : k ≠ 0) (hlt : k < p) : (k : Coordinate) ≠ 0 := by
  rw [Ne, ZMod.natCast_eq_zero_iff]
  exact fun h => (Nat.le_of_dvd (Nat.pos_of_ne_zero hk) h).not_gt hlt

lemma two_ne_zero : (2 : Coordinate) ≠ 0 := by
  exact_mod_cast natCast_ne_zero (k := 2) (by decide) (by decide)

lemma p_pos : 0 < p := by decide

@[simp] lemma cast_sub (a b : Nat) : (Modular.sub p a b : Coordinate) = a - b :=
  Modular.cast_sub p_pos a b

/-! ### The curve -/

lemma equation_iff (x y : Coordinate) : curve.Equation x y ↔ y ^ 2 = x ^ 3 + 7 := by
  simp [curve, WeierstrassCurve.Affine.equation_iff]

lemma discriminant_ne_zero : curve.Δ ≠ 0 := by
  have h : curve.Δ = -((21168 : Nat) : Coordinate) := by
    simp only [curve, WeierstrassCurve.Δ, WeierstrassCurve.b₂, WeierstrassCurve.b₄,
      WeierstrassCurve.b₆, WeierstrassCurve.b₈]
    push_cast
    ring
  rw [h]
  exact neg_ne_zero.2 (natCast_ne_zero (by decide) (by decide))

lemma nonsingular_iff (x y : Coordinate) : curve.Nonsingular x y ↔ y ^ 2 = x ^ 3 + 7 := by
  rw [← WeierstrassCurve.Affine.equation_iff_nonsingular_of_Δ_ne_zero discriminant_ne_zero,
    equation_iff]

lemma negY_eq (x y : Coordinate) : curve.negY x y = -y := by
  simp [curve, WeierstrassCurve.Affine.negY]

lemma addX_eq (x₁ x₂ l : Coordinate) : curve.addX x₁ x₂ l = l ^ 2 - x₁ - x₂ := by
  simp [curve, WeierstrassCurve.Affine.addX]

lemma addY_eq (x₁ x₂ y₁ l : Coordinate) :
    curve.addY x₁ x₂ y₁ l = l * (x₁ - curve.addX x₁ x₂ l) - y₁ := by
  rw [WeierstrassCurve.Affine.addY, negY_eq, WeierstrassCurve.Affine.negAddY]
  ring

lemma ne_negY {x y : Coordinate} (hy : y ≠ 0) : y ≠ curve.negY x y := by
  rw [negY_eq]
  intro h
  have h2 : 2 * y = 0 := by linear_combination h
  exact (mul_eq_zero.1 h2).elim two_ne_zero hy

lemma slope_self {x y : Coordinate} (hy : y ≠ 0) :
    curve.slope x x y y = 3 * x ^ 2 / (2 * y) := by
  rw [WeierstrassCurve.Affine.slope_of_Y_ne rfl (ne_negY hy), negY_eq, sub_neg_eq_add, ← two_mul]
  simp [curve]

/-! ### Jacobian coordinates -/

/-- Three numbers represent a point: a third of zero the one at infinity, another one the point
whose coordinates are the quotients. -/
inductive Jacobian.Represents (a : Jacobian) : Point → Prop
  | infinity (hz : a.z = 0) : a.Represents 0
  | affine {x y : Coordinate} (h : curve.Nonsingular x y) (hz : a.z ≠ 0) (z_lt : a.z < p)
      (y_lt : a.y < p) (hx : (a.x : Coordinate) = x * a.z ^ 2)
      (hy : (a.y : Coordinate) = y * a.z ^ 3) : a.Represents (.some x y h)

namespace Jacobian

variable {a b : Jacobian} {P Q : Point}

lemma represents_infinity : infinity.Represents 0 := .infinity rfl

lemma Represents.of_cast {x y : Coordinate} (h : curve.Nonsingular x y) (z_lt : a.z < p)
    (y_lt : a.y < p) (hz : (a.z : Coordinate) ≠ 0) (hx : (a.x : Coordinate) = x * a.z ^ 2)
    (hy : (a.y : Coordinate) = y * a.z ^ 3) : a.Represents (.some x y h) :=
  .affine h (fun h0 => hz (by rw [h0, Nat.cast_zero])) z_lt y_lt hx hy

lemma represents_tangent {x y : Coordinate} (h : curve.Nonsingular x y) (hy₀ : y ≠ 0)
    (hz : (a.z : Coordinate) ≠ 0) (hx : (a.x : Coordinate) = x * a.z ^ 2)
    (hy : (a.y : Coordinate) = y * a.z ^ 3) (hnat : ¬ (a.z = 0 ∨ a.y = 0)) :
    a.double.Represents (.some x y h + .some x y h) := by
  have hden : (2 * a.y * a.z % p : Nat) = (2 * y * a.z ^ 4 : Coordinate) := by
    push_cast [ZMod.natCast_mod]
    rw [hy]
    ring
  have h2 := two_ne_zero
  -- the third coordinate of the double is not zero, so it is a point with coordinates
  have hne : (2 * y * a.z ^ 4 : Coordinate) ≠ 0 :=
    mul_ne_zero (mul_ne_zero h2 hy₀) (pow_ne_zero 4 hz)
  rw [Jacobian.double, if_neg hnat, WeierstrassCurve.Affine.Point.add_self_of_Y_ne (ne_negY hy₀)]
  refine .of_cast _ (Nat.mod_lt _ p_pos) (Modular.sub_lt p_pos _ _) (hden ▸ hne) ?_ ?_
  · rw [hden, slope_self hy₀, addX_eq]
    push_cast [ZMod.natCast_mod, cast_sub]
    rw [hx, hy]
    field_simp
    ring
  · rw [hden, slope_self hy₀, addY_eq, addX_eq]
    push_cast [ZMod.natCast_mod, cast_sub]
    rw [hx, hy]
    field_simp
    ring

lemma Represents.double (ha : a.Represents P) : a.double.Represents (P + P) := by
  cases ha with
  | infinity hz =>
    rw [Jacobian.double, if_pos (.inl hz), add_zero]
    exact represents_infinity
  | @affine x y h hz z_lt y_lt hx hy =>
    have hz' : (a.z : Coordinate) ≠ 0 := natCast_ne_zero hz z_lt
    by_cases hy₀ : a.y = 0
    · have hy' : y = 0 := by
        rw [hy₀, Nat.cast_zero, eq_comm, mul_eq_zero] at hy
        exact hy.resolve_right (pow_ne_zero 3 hz')
      have hneg : y = curve.negY x y := by rw [negY_eq, hy', neg_zero]
      rw [Jacobian.double, if_pos (.inr hy₀), WeierstrassCurve.Affine.Point.add_self_of_Y_eq hneg]
      exact represents_infinity
    · have hy' : y ≠ 0 := by
        rintro rfl
        rw [zero_mul] at hy
        exact natCast_ne_zero hy₀ y_lt hy
      exact represents_tangent h hy' hz' hx hy (not_or.2 ⟨hz, hy₀⟩)

/-- The sum of two points on a chord, of which the first has the coordinates `u` and `s` at the
product `z` of the third coordinates, and the second is `h` and `r` away from it. -/
def chordSum (z u s h r : Nat) : Jacobian :=
  let hh := h * h % p
  let hhh := h * hh % p
  let v := u * hh % p
  let x := Modular.sub p (Modular.sub p (r * r % p) hhh) (2 * v % p)
  ⟨x, Modular.sub p (r * Modular.sub p v x % p) (s * hhh % p), z * h % p⟩

lemma exists_chord {x₁ y₁ x₂ y₂ : Coordinate} (ha : a.z ≠ 0) (hb : b.z ≠ 0)
    (hx₁ : (a.x : Coordinate) = x₁ * a.z ^ 2) (hy₁ : (a.y : Coordinate) = y₁ * a.z ^ 3)
    (hx₂ : (b.x : Coordinate) = x₂ * b.z ^ 2) (hy₂ : (b.y : Coordinate) = y₂ * b.z ^ 3) :
    ∃ u s h r : Nat, h < p ∧ r < p ∧
      (u : Coordinate) = x₁ * (a.z * b.z) ^ 2 ∧ (s : Coordinate) = y₁ * (a.z * b.z) ^ 3 ∧
      (h : Coordinate) = (x₂ - x₁) * (a.z * b.z) ^ 2 ∧
      (r : Coordinate) = (y₂ - y₁) * (a.z * b.z) ^ 3 ∧
      a.add b = if h = 0 then if r = 0 then a.double else infinity
        else chordSum (a.z * b.z % p) u s h r := by
  refine ⟨_, _, _, _, Modular.sub_lt p_pos _ _, Modular.sub_lt p_pos _ _, ?_, ?_, ?_, ?_,
    by rw [Jacobian.add, if_neg ha, if_neg hb]; rfl⟩
  all_goals
    push_cast [ZMod.natCast_mod, cast_sub]
    simp only [hx₁, hy₁, hx₂, hy₂]
    ring

lemma represents_chord {x₁ y₁ x₂ y₂ : Coordinate} {u s h r : Nat}
    (h₁ : curve.Nonsingular x₁ y₁) (h₂ : curve.Nonsingular x₂ y₂) (hx : x₁ ≠ x₂)
    (hz : (a.z * b.z : Coordinate) ≠ 0)
    (hu : (u : Coordinate) = x₁ * (a.z * b.z) ^ 2) (hs : (s : Coordinate) = y₁ * (a.z * b.z) ^ 3)
    (hh : (h : Coordinate) = (x₂ - x₁) * (a.z * b.z) ^ 2)
    (hr : (r : Coordinate) = (y₂ - y₁) * (a.z * b.z) ^ 3) :
    (chordSum (a.z * b.z % p) u s h r).Represents (.some x₁ y₁ h₁ + .some x₂ y₂ h₂) := by
  have hD : x₂ - x₁ ≠ 0 := sub_ne_zero.2 (Ne.symm hx)
  have hD' : x₁ - x₂ ≠ 0 := sub_ne_zero.2 hx
  have hden : (a.z * b.z % p * h % p : Nat) = ((x₂ - x₁) * (a.z * b.z) ^ 3 : Coordinate) := by
    push_cast [ZMod.natCast_mod]
    rw [hh]
    ring
  have hne : ((x₂ - x₁) * (a.z * b.z) ^ 3 : Coordinate) ≠ 0 := mul_ne_zero hD (pow_ne_zero 3 hz)
  rw [WeierstrassCurve.Affine.Point.add_of_X_ne hx, chordSum]
  refine .of_cast _ (Nat.mod_lt _ p_pos) (Modular.sub_lt p_pos _ _) (hden ▸ hne) ?_ ?_
  · rw [hden, WeierstrassCurve.Affine.slope_of_X_ne hx, addX_eq]
    push_cast [ZMod.natCast_mod, cast_sub]
    rw [hh, hr, hu]
    field_simp
    ring
  · rw [hden, WeierstrassCurve.Affine.slope_of_X_ne hx, addY_eq, addX_eq]
    push_cast [ZMod.natCast_mod, cast_sub]
    rw [hh, hr, hu, hs]
    field_simp
    ring

lemma eq_zero_iff_of_cast {k : Nat} {v w e : Coordinate} (hlt : k < p) (he : e ≠ 0)
    (h : (k : Coordinate) = (w - v) * e) : k = 0 ↔ v = w := by
  constructor
  · rintro rfl
    rw [Nat.cast_zero, eq_comm, mul_eq_zero, sub_eq_zero] at h
    exact (h.resolve_right he).symm
  · rintro rfl
    by_contra hne
    exact natCast_ne_zero hne hlt (by rw [h, sub_self, zero_mul])

lemma Represents.add (ha : a.Represents P) (hb : b.Represents Q) :
    (a.add b).Represents (P + Q) := by
  have ha' := ha
  cases ha' with
  | infinity hz =>
    rw [Jacobian.add, if_pos hz, zero_add]
    exact hb
  | @affine x₁ y₁ h₁ hz₁ z_lt₁ y_lt₁ hx₁ hy₁ =>
    cases hb with
    | infinity hz =>
      rw [Jacobian.add, if_neg hz₁, if_pos hz, add_zero]
      exact ha
    | @affine x₂ y₂ h₂ hz₂ z_lt₂ _ hx₂ hy₂ =>
      have hz : (a.z * b.z : Coordinate) ≠ 0 :=
        mul_ne_zero (natCast_ne_zero hz₁ z_lt₁) (natCast_ne_zero hz₂ z_lt₂)
      obtain ⟨u, s, h, r, h_lt, r_lt, hu, hs, hh, hr, hadd⟩ :=
        exists_chord hz₁ hz₂ hx₁ hy₁ hx₂ hy₂
      rw [hadd]
      by_cases hx : x₁ = x₂
      · rw [if_pos ((eq_zero_iff_of_cast h_lt (pow_ne_zero 2 hz) hh).2 hx)]
        by_cases hy : y₁ = y₂
        · -- One point twice.
          rw [if_pos ((eq_zero_iff_of_cast r_lt (pow_ne_zero 3 hz) hr).2 hy)]
          subst hx hy
          exact ha.double
        · -- A point and its negative.
          have hneg := (WeierstrassCurve.Affine.Y_eq_of_X_eq h₁.1 h₂.1 hx).resolve_left hy
          rw [if_neg (mt (eq_zero_iff_of_cast r_lt (pow_ne_zero 3 hz) hr).1 hy),
            WeierstrassCurve.Affine.Point.add_of_Y_eq hx hneg]
          exact represents_infinity
      · rw [if_neg (mt (eq_zero_iff_of_cast h_lt (pow_ne_zero 2 hz) hh).1 hx)]
        exact represents_chord h₁ h₂ hx hz hu hs hh hr

lemma Represents.mul (ha : a.Represents P) {bits k : Nat} (hk : k < Nat.pow 2 bits) :
    (a.mul bits k).Represents (k • P) := by
  induction bits generalizing a P k with
  | zero =>
    obtain rfl : k = 0 := Nat.lt_one_iff.1 hk
    rw [Jacobian.mul, zero_nsmul]
    exact represents_infinity
  | succ bits ih =>
    have hpow : Nat.pow 2 (bits + 1) = Nat.pow 2 bits * 2 := rfl
    -- the other bits multiply the double
    have hhalf := ih ha.double (k := k / 2) (by omega)
    rw [← two_nsmul, smul_smul] at hhalf
    simp only [Jacobian.mul]
    split
    · have hsum : k • P = P + (k / 2 * 2) • P := by
        rw [← succ_nsmul']
        congr 1
        omega
      rw [hsum]
      exact ha.add hhalf
    · have heven : k / 2 * 2 = k := by omega
      rwa [heven] at hhalf

end Jacobian

end CoinScript.Curve
