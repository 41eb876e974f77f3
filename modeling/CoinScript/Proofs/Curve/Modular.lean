import CoinScript.Curve
import Mathlib.FieldTheory.Finite.Basic

/-!
Numbers modulo `m` as elements of `ZMod m`.

Differences, powers and inverses are computed on natural numbers. Here each is shown to stand
for the operation of the ring, so that what follows can reason in the field of residues and let
the numbers go.
-/

namespace CoinScript.Modular

variable {m : Nat}

/-! ### Results are reduced -/

lemma sub_lt (hm : 0 < m) (a b : Nat) : sub m a b < m := Nat.mod_lt _ hm

lemma pow_lt (hm : 0 < m) (bits b e : Nat) : pow m bits b e < m := by
  cases bits with
  | zero => exact Nat.mod_lt _ hm
  | succ bits =>
    simp only [pow]
    split
    · exact Nat.mod_lt _ hm
    · exact pow_lt hm bits _ _

/-! ### Results as residues -/

lemma cast_sub (hm : 0 < m) (a b : Nat) : (sub m a b : ZMod m) = a - b := by
  have hb : b % m ≤ m := (Nat.mod_lt b hm).le
  rw [sub, ZMod.natCast_mod, Nat.cast_add, Nat.cast_sub hb, ZMod.natCast_self, ZMod.natCast_mod]
  ring

lemma cast_pow : ∀ (bits b e : Nat), e < Nat.pow 2 bits → (pow m bits b e : ZMod m) = b ^ e
  | 0, b, e, h => by
    obtain rfl : e = 0 := Nat.lt_one_iff.1 h
    rw [pow, ZMod.natCast_mod, Nat.cast_one, pow_zero]
  | bits + 1, b, e, h => by
    have hpow : Nat.pow 2 (bits + 1) = Nat.pow 2 bits * 2 := rfl
    have ih := cast_pow bits (b * b % m) (e / 2) (by omega)
    have hsq : ((b * b % m : Nat) : ZMod m) ^ (e / 2) = (b : ZMod m) ^ (2 * (e / 2)) := by
      rw [ZMod.natCast_mod, Nat.cast_mul, ← sq, ← pow_mul]
    rw [hsq] at ih
    simp only [pow]
    split
    · rename_i hodd
      have he : e = 2 * (e / 2) + 1 := by omega
      rw [ZMod.natCast_mod, Nat.cast_mul, ih, ← pow_succ', ← he]
    · have he : 2 * (e / 2) = e := by omega
      rw [ih, he]

lemma pow_eq_one_iff (hm : 1 < m) {bits b e : Nat} (h : e < Nat.pow 2 bits) :
    pow m bits b e = 1 ↔ (b : ZMod m) ^ e = 1 := by
  rw [← cast_pow bits b e h, ← Nat.cast_one (R := ZMod m), ZMod.natCast_eq_natCast_iff',
    Nat.mod_eq_of_lt (pow_lt (by omega) _ _ _), Nat.mod_eq_of_lt hm]

lemma cast_inv [hp : Fact m.Prime] (h2 : 2 < m) (hm : m < Nat.pow 2 256) (a : Nat) :
    (inv m a : ZMod m) = (a : ZMod m)⁻¹ := by
  rw [inv, cast_pow _ _ _ (by omega)]
  by_cases ha : (a : ZMod m) = 0
  · -- zero has zero for inverse on both sides
    rw [ha, inv_zero, zero_pow (by omega)]
  · apply eq_inv_of_mul_eq_one_left
    have he : m - 1 = m - 2 + 1 := by omega
    rw [← pow_succ, ← he, ZMod.pow_card_sub_one_eq_one ha]

end CoinScript.Modular
