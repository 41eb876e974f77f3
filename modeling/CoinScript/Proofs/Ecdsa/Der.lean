import CoinScript.Ecdsa.Der
import Mathlib.Tactic.Common

/-!
Signatures are read back from the bytes they are written in.

The strict form has short lengths and no zeros that could be left out, so the lax reader takes
none of its detours. Its size is what an opcode of the stack can push directly.
-/

namespace CoinScript.Ecdsa

/-- Both numbers are scalars, with `s` in the lower half; neither is zero. -/
structure Signature.Canonical (sig : Signature) : Prop where
  r_pos : 0 < sig.r
  r_lt : sig.r < Curve.n
  s_pos : 0 < sig.s
  s_le : sig.s ≤ Curve.n / 2

namespace Signature.Canonical

variable {sig : Signature}

lemma s_lt (h : sig.Canonical) : sig.s < Curve.n := Nat.lt_of_le_of_lt h.s_le (by decide)

lemma isLow (h : sig.Canonical) : sig.isLow = true := decide_eq_true h.s_le

lemma lower_eq (h : sig.Canonical) : sig.lower = sig := if_pos h.isLow

end Signature.Canonical

namespace Der

variable {k : Nat}

/-! ### Integers -/

lemma lt_pow_size (k : Nat) : k < Nat.pow 256 ((k.log2 + 1) / 8 + 1) := by
  have hbits : k.log2 + 1 ≤ 8 * ((k.log2 + 1) / 8 + 1) := by omega
  calc k < 2 ^ (k.log2 + 1) := Nat.lt_log2_self
    _ ≤ 2 ^ (8 * ((k.log2 + 1) / 8 + 1)) := Nat.pow_le_pow_right (by decide) hbits
    _ = Nat.pow 256 ((k.log2 + 1) / 8 + 1) := Nat.pow_mul 2 8 _

lemma size_le (hk : k < Curve.n) : (k.log2 + 1) / 8 + 1 ≤ 33 := by
  have hlog : k.log2 < 256 := by
    rcases Nat.eq_zero_or_pos k with rfl | hpos
    · decide
    · exact (Nat.log2_lt (Nat.ne_of_gt hpos)).2 (Nat.lt_trans hk (by decide))
  omega

lemma length_encodeInteger_le (hk : k < Curve.n) : (encodeInteger k).length ≤ 35 := by
  have := size_le hk
  simp only [encodeInteger, List.length_cons, Bytes.length_ofNatBE]
  omega

lemma integer?_encodeInteger (hk : k < Curve.n) (rest : Bytes) :
    ∃ digits, integer? (encodeInteger k ++ rest) = some (digits, rest) ∧ digits.toNatBE = k := by
  have hsize := size_le hk
  have hlt := lt_pow_size k
  simp only [encodeInteger]
  generalize (k.log2 + 1) / 8 + 1 = size at *
  have hbyte : (UInt8.ofNat size).toNat = size :=
    UInt8.toNat_ofNat_of_lt' (Nat.lt_of_le_of_lt hsize (by decide))
  have hlen : (Bytes.ofNatBE size k).length = size := Bytes.length_ofNatBE _ _
  refine ⟨Bytes.ofNatBE size k, ?_, ?_⟩
  · have hshort : size < 128 := by omega
    simp [integer?, length?, hbyte, hshort, hlen, List.take_left', List.drop_left']
  · rw [Bytes.toNatBE_ofNatBE, Nat.mod_eq_of_lt hlt]

/-! ### Signatures -/

variable {sig : Signature}

lemma length_encode_le (h : sig.Canonical) : (encode sig).length ≤ 72 := by
  have hr := length_encodeInteger_le h.r_lt
  have hs := length_encodeInteger_le h.s_lt
  simp only [encode, List.length_cons, List.length_append]
  omega

/-- **A canonical signature is read back from its bytes.** -/
theorem decodeLax?_encode (h : sig.Canonical) : decodeLax? (encode sig) = some sig := by
  have hlen : (encodeInteger sig.r ++ encodeInteger sig.s).length < 128 := by
    have hr := length_encodeInteger_le h.r_lt
    have hs := length_encodeInteger_le h.s_lt
    rw [List.length_append]
    omega
  have hbyte : (UInt8.ofNat (encodeInteger sig.r ++ encodeInteger sig.s).length).toNat =
      (encodeInteger sig.r ++ encodeInteger sig.s).length :=
    UInt8.toNat_ofNat_of_lt' (Nat.lt_trans hlen (by decide))
  have hskip : skipLength? (UInt8.ofNat (encodeInteger sig.r ++ encodeInteger sig.s).length ::
      (encodeInteger sig.r ++ encodeInteger sig.s)) =
        some (encodeInteger sig.r ++ encodeInteger sig.s) := by
    rw [skipLength?, hbyte, if_pos hlen]
  obtain ⟨r, hr, hr'⟩ := integer?_encodeInteger h.r_lt (encodeInteger sig.s)
  obtain ⟨s, hs, hs'⟩ := integer?_encodeInteger h.s_lt []
  rw [List.append_nil] at hs
  have hscalar : sig.r < Curve.n ∧ sig.s < Curve.n := ⟨h.r_lt, h.s_lt⟩
  simp only [encode, decodeLax?, hskip, hr, hs, hr', hs', Option.bind_eq_bind, Option.bind_some,
    if_pos hscalar]

end Der

end CoinScript.Ecdsa
