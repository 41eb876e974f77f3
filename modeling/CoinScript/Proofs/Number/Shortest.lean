import CoinScript.Proofs.Number

/-!
Numbers and their shortest encodings.

What is written for a number denotes it. Bytes of one length denote a number other than zero in one
way only, since its sign says whether the top bit is set, and zero is written without any byte. So
each other encoding of a number is longer than the one that is written for it.
-/

namespace CoinScript

namespace Number

variable {b c : Bytes} {v : Int}

def IsShortest (b : Bytes) : Prop :=
  ∀ c, decode c = decode b → c = b ∨ b.length < c.length

/-- What the sign of a number adds to its magnitude. -/
def signed (k : Nat) (v : Int) : Nat :=
  if v < 0 then v.natAbs + room k else v.natAbs

lemma decode_eq (h : v.natAbs < room b.length) (hb : b.toNatLE = signed b.length v) :
    decode b = v := by
  have hroom : signWeight b.length = room b.length := rfl
  unfold decode signed at *
  rw [hb, hroom]
  by_cases hneg : v < 0
  · rw [if_pos hneg, if_neg (by omega)]
    omega
  · rw [if_neg hneg, if_pos h]
    omega

lemma toNatLE_eq (h : decode b = v) (hv : v ≠ 0) : b.toNatLE = signed b.length v := by
  have hroom : signWeight b.length = room b.length := rfl
  subst h
  unfold decode signed at *
  rw [hroom] at *
  by_cases hlt : b.toNatLE < room b.length
  · rw [if_pos hlt] at *
    rw [if_neg (by omega)]
    omega
  · rw [if_neg hlt] at *
    rw [if_pos (by omega)]
    omega

lemma width_pos (hv : v ≠ 0) : 0 < width v.natAbs := by
  unfold width
  rw [if_neg (by omega)]
  exact Nat.succ_pos _

lemma natAbs_lt_room_width (v : Int) : v.natAbs < room (width v.natAbs) := by
  by_cases hv : v = 0
  · subst hv
    decide
  · have hne : v.natAbs ≠ 0 := by omega
    unfold room width
    rw [if_neg hne, Nat.pow_eq]
    exact (Nat.log2_lt hne).1 (by omega)

lemma length_encode (v : Int) : (encode v).length = width v.natAbs := Bytes.length_ofNatLE _ _

lemma toNatLE_encode (v : Int) : (encode v).toNatLE = signed (width v.natAbs) v := by
  by_cases hv : v = 0
  · subst hv
    rfl
  · have hlt := natAbs_lt_room_width v
    have htwo := two_mul_room (width_pos hv)
    change (Bytes.ofNatLE (width v.natAbs) (signed (width v.natAbs) v)).toNatLE = _
    rw [Bytes.toNatLE_ofNatLE, Nat.mod_eq_of_lt]
    unfold signed
    split <;> omega

@[simp] lemma decode_encode (v : Int) : decode (encode v) = v := by
  refine decode_eq ?_ ?_
  · rw [length_encode]
    exact natAbs_lt_room_width v
  · rw [length_encode, toNatLE_encode]

lemma length_encode_decode_le (b : Bytes) : (encode (decode b)).length ≤ b.length := by
  by_cases hb : b = []
  · subst hb
    decide
  · exact length_encode_le (List.length_pos_iff.2 hb) (natAbs_decode_lt hb)

/-- **Nothing else as short** denotes a number. -/
lemma eq_encode (h : decode b = v) (hlen : b.length ≤ (encode v).length) : b = encode v := by
  have hlength : b.length = (encode v).length :=
    Nat.le_antisymm hlen (h ▸ length_encode_decode_le b)
  by_cases hzero : v = 0
  · subst hzero
    exact List.length_eq_zero_iff.1 hlength
  · have hsame : b.toNatLE = (encode v).toNatLE := by
      rw [toNatLE_eq h hzero, toNatLE_encode, hlength, length_encode]
    rw [← Bytes.ofNatLE_toNatLE b, ← Bytes.ofNatLE_toNatLE (encode v), hsame, hlength]

lemma isShortest_encode (v : Int) : IsShortest (encode v) := by
  intro c hc
  rw [decode_encode] at hc
  rcases Nat.lt_or_ge (encode v).length c.length with hlt | hle
  · exact .inr hlt
  · exact .inl (eq_encode hc hle)

lemma ofBool_eq (p : Bool) : ofBool p = encode (if p then 1 else 0) := by
  cases p <;> rfl

end Number

end CoinScript
