import CoinScript.Ecdsa.Key
import CoinScript.Proofs.Curve.Order

/-!
Public keys are points of the curve, and are read back from the bytes they are written in.

The modulus is three modulo four, so a square root is a power; of the two roots the parity
tells which one was written.
-/

namespace CoinScript

namespace Curve

/-! ### Square roots -/

lemma sq_pow_quarter (y : Coordinate) : ((y ^ 2) ^ ((p + 1) / 4)) ^ 2 = y ^ 2 := by
  have hexp : 2 * ((p + 1) / 4 * 2) = (p - 1) + 2 := by decide
  rw [← pow_mul, ← pow_mul, hexp, pow_add]
  by_cases hy : y = 0
  · rw [hy, zero_pow (by decide : 2 ≠ 0), mul_zero]
  · rw [ZMod.pow_card_sub_one_eq_one hy, one_mul]

lemma sqrt?_eq {a : Nat} {y : Coordinate} (h : (a : Coordinate) = y ^ 2) :
    ∃ r < p, sqrt? a = some r ∧ (r : Coordinate) ^ 2 = y ^ 2 := by
  have hroot : (Modular.pow p 256 a ((p + 1) / 4) : Coordinate) ^ 2 = y ^ 2 := by
    rw [Modular.cast_pow _ _ _ (by decide), h, sq_pow_quarter]
  refine ⟨_, Modular.pow_lt p_pos _ _ _, ?_, hroot⟩
  rw [sqrt?]
  apply if_pos
  rw [← ZMod.natCast_eq_natCast_iff', Nat.cast_mul, ← sq, hroot, h]

lemma eq_or_eq_of_sq {a b : Nat} (ha : a < p) (hb : b < p)
    (h : (a : Coordinate) ^ 2 = (b : Coordinate) ^ 2) : a = b ∨ a = (p - b) % p := by
  rcases sq_eq_sq_iff_eq_or_eq_neg.1 h with h | h
  · rw [ZMod.natCast_eq_natCast_iff', Nat.mod_eq_of_lt ha, Nat.mod_eq_of_lt hb] at h
    exact .inl h
  · right
    have hneg : ((p - b : Nat) : Coordinate) = -b := by
      rw [Nat.cast_sub hb.le, ZMod.natCast_self, zero_sub]
    rw [← hneg, ZMod.natCast_eq_natCast_iff', Nat.mod_eq_of_lt ha] at h
    exact h

end Curve

namespace Ecdsa

open Curve

variable {key : PublicKey}

namespace PublicKey

/-! ### Keys as bytes -/

lemma choose_parity {r y : Nat} (hr : r < p) (hy : y < p) (h : r = y ∨ r = (p - y) % p) :
    (if (r % 2 == 1) = (y % 2 == 1) then r else (p - r) % p) = y := by
  have hodd : p % 2 = 1 := by decide
  rcases Nat.eq_zero_or_pos y with rfl | hpos
  · have hr0 : r = 0 := by simpa using h
    simp [hr0]
  · rcases h with rfl | h
    · rw [if_pos rfl]
    · have hlt : p - y < p := Nat.sub_lt p_pos hpos
      rw [Nat.mod_eq_of_lt hlt] at h
      have hne : (r % 2 == 1) ≠ (y % 2 == 1) := by
        rw [Ne, Bool.eq_iff_iff, beq_iff_eq, beq_iff_eq]
        omega
      rw [if_neg hne, Nat.mod_eq_of_lt (by omega)]
      omega

lemma ofX?_of_onCurve (h : key.onCurve = true) :
    ofX? key.x (key.y % 2 == 1) = some key := by
  obtain ⟨hx, hy, heq⟩ := onCurve_iff.1 h
  obtain ⟨r, hr, hsqrt, hsq⟩ := sqrt?_eq ((cast_cubic key.x).trans heq.symm)
  rw [ofX?, if_pos hx, hsqrt, Option.map_some, Option.some_inj]
  simp only [beq_iff_eq]
  rw [choose_parity hr hy (eq_or_eq_of_sq hr hy hsq)]

lemma length_compressed (key : PublicKey) : key.compressed.length = 33 := by
  rw [compressed, List.length_cons, Bytes.length_ofNatBE]

theorem ofBytes?_compressed (h : key.onCurve = true) : ofBytes? key.compressed = some key := by
  have hx : key.x < Nat.pow 256 32 := (onCurve_iff.1 h).1.trans (by decide)
  have hlen : (Bytes.ofNatBE 32 key.x).length = 32 := Bytes.length_ofNatBE _ _
  have hform := ofX?_of_onCurve h
  simp only [compressed, ofBytes?, if_pos hlen, List.take_of_length_le hlen.le,
    Bytes.toNatBE_ofNatBE, Nat.mod_eq_of_lt hx]
  by_cases hodd : key.y % 2 = 1
  · rw [hodd] at hform
    simpa [hodd] using hform
  · have heven : (key.y % 2 == 1) = false := by simpa using hodd
    rw [heven] at hform
    simpa [hodd] using hform

end PublicKey

/-! ### Keys of secrets -/

namespace SecretKey

noncomputable def point (d : SecretKey) : Point := d.scalar • base

lemma point_ne_zero (d : SecretKey) : d.point ≠ 0 := by
  have hdvd : ¬ n ∣ d.scalar := Nat.not_dvd_of_pos_of_lt d.pos d.lt
  rwa [point, Ne, ← addOrderOf_dvd_iff_nsmul_eq_zero, addOrderOf_base]

lemma coordinates?_point (d : SecretKey) : coordinates? d.point = some d.publicKey := by
  have hmul : multiple? d.scalar generator = coordinates? d.point :=
    multiple?_eq (d.lt.trans (by decide)) coordinates?_base
  obtain ⟨a, ha⟩ := Option.ne_none_iff_exists'.1 (mt coordinates?_eq_none_iff.1 d.point_ne_zero)
  rw [publicKey, hmul, ha, Option.getD_some]

lemma onCurve_publicKey (d : SecretKey) : d.publicKey.onCurve = true :=
  onCurve_iff_exists.2 ⟨_, d.coordinates?_point⟩

end SecretKey

end Ecdsa

end CoinScript
