import CoinScript.Proofs.Number.Shortest
import Mathlib.Data.List.Basic

/-!
Canonical encodings, and the truth of an item.

The last byte of an encoding has the sign in its top bit and the top of the magnitude in the others.
If there is no magnitude in it, it stands for the sign alone, and is needed only where the byte
before has its top bit taken. So whether an encoding is the one that is written for its number can
be told from its last two bytes. The truth of an item is that of its number.
-/

namespace CoinScript

/-! ### Bits of a byte -/

lemma toNat_and_low (x : UInt8) : (x &&& 0x7f).toNat = x.toNat % 128 := by
  rw [UInt8.toNat_and]
  exact Nat.and_two_pow_sub_one_eq_mod x.toNat 7

lemma and_low_ne_zero_iff (x : UInt8) : x &&& 0x7f ≠ 0 ↔ 0 < x.toNat % 128 := by
  rw [← toNat_and_low, Nat.pos_iff_ne_zero, ne_eq, ne_eq, ← UInt8.toNat_inj]
  rfl

lemma and_top_eq_zero_iff (x : UInt8) : x &&& 0x80 = 0 ↔ x.toNat < 128 := by
  have hbits : ∀ n < 256, n &&& 128 = 0 ↔ n < 128 := by decide +kernel
  rw [← UInt8.toNat_inj, UInt8.toNat_and]
  exact hbits x.toNat x.toNat_lt

lemma and_top_ne_zero_iff (x : UInt8) : x &&& 0x80 ≠ 0 ↔ 128 ≤ x.toNat := by
  rw [ne_eq, and_top_eq_zero_iff, Nat.not_lt]

lemma Bytes.toNatLE_append (a b : Bytes) :
    (a ++ b).toNatLE = a.toNatLE + Nat.pow 256 a.length * b.toNatLE := by
  induction a with
  | nil => simp [toNatLE]
  | cons x a ih =>
    have hpow : Nat.pow 256 (a.length + 1) = 256 * Nat.pow 256 a.length := Nat.mul_comm _ _
    rw [List.cons_append, toNatLE, toNatLE, ih, List.length_cons, hpow, Nat.mul_add,
      Nat.mul_assoc, Nat.add_assoc]

namespace Number

variable {b : Bytes} {x : UInt8} {k : Nat} {v : Int}

/-- An encoding without a byte to spare: there is none, or the last one holds some of the magnitude,
or the top bit of the one before leaves no place for the sign. -/
inductive Minimal : Bytes → Prop
  | nil : Minimal []
  | full (b : Bytes) {x : UInt8} (h : x &&& 0x7f ≠ 0) : Minimal (b ++ [x])
  | taken (b : Bytes) {y : UInt8} (x : UInt8) (h : y &&& 0x80 ≠ 0) : Minimal (b ++ [y, x])

/-! ### Magnitude and sign -/

lemma room_succ (k : Nat) : room (k + 1) = 128 * Nat.pow 256 k := by
  have htwo : 2 * room (k + 1) = Nat.pow 256 (k + 1) := two_mul_room (Nat.succ_pos k)
  have hpow : Nat.pow 256 (k + 1) = 256 * Nat.pow 256 k := Nat.mul_comm _ _
  omega

lemma room_le_pow (k : Nat) : room k ≤ Nat.pow 256 k := by
  rcases Nat.eq_zero_or_pos k with rfl | hk
  · decide
  · have htwo := two_mul_room hk
    omega

/-- The magnitude of an encoding: its bytes without the top bit of the last. -/
def magnitude (b : Bytes) (x : UInt8) : Nat :=
  (b ++ [x &&& 0x7f]).toNatLE

lemma magnitude_eq (b : Bytes) (x : UInt8) :
    magnitude b x = b.toNatLE + Nat.pow 256 b.length * (x.toNat % 128) := by
  rw [magnitude, Bytes.toNatLE_append, Bytes.toNatLE, toNat_and_low]
  rfl

lemma magnitude_ne_zero_iff : magnitude b x ≠ 0 ↔ b.toNatLE ≠ 0 ∨ x &&& 0x7f ≠ 0 := by
  have hpow : Nat.pow 256 b.length ≠ 0 := (Nat.pow_pos (by decide)).ne'
  rw [magnitude_eq, and_low_ne_zero_iff, Nat.pos_iff_ne_zero, ne_eq, Nat.add_eq_zero_iff,
    Nat.mul_eq_zero, or_iff_right hpow, not_and_or]

/-- **The top bit of the last byte** is the sign, and the other bits are the magnitude. -/
lemma decode_concat (b : Bytes) (x : UInt8) :
    decode (b ++ [x]) = if x &&& 0x80 = 0 then (magnitude b x : Int) else -(magnitude b x) := by
  have hlow := Bytes.toNatLE_lt b
  have hweight : signWeight (b ++ [x]).length = 128 * Nat.pow 256 b.length := by
    rw [List.length_append, List.length_singleton]
    exact room_succ b.length
  have hx := x.toNat_lt
  have hvalue : (b ++ [x]).toNatLE = b.toNatLE + Nat.pow 256 b.length * x.toNat := by
    rw [Bytes.toNatLE_append]
    simp [Bytes.toNatLE]
  simp only [decode, hweight, hvalue, magnitude_eq, and_top_eq_zero_iff]
  generalize Nat.pow 256 b.length = p at *
  by_cases htop : x.toNat < 128
  · have hle : p * x.toNat ≤ p * 127 := Nat.mul_le_mul_left p (by omega)
    rw [if_pos htop, if_pos (by omega), Nat.mod_eq_of_lt htop]
  · -- the sign is taken off the magnitude
    obtain ⟨m, hm⟩ : ∃ m, x.toNat = 128 + m := ⟨x.toNat - 128, by omega⟩
    have hmod : (128 + m) % 128 = m := by omega
    rw [if_neg htop, hm, hmod, Nat.mul_add, if_neg (by omega)]
    omega

lemma natAbs_decode_concat (b : Bytes) (x : UInt8) :
    (decode (b ++ [x])).natAbs = magnitude b x := by
  rw [decode_concat]
  split <;> omega

/-! ### Bytes to spare -/

lemma length_encode_le_iff : (encode v).length ≤ k ↔ v.natAbs < room k := by
  constructor
  · intro h
    have hlt := natAbs_decode_lt_of_le h
    rwa [decode_encode] at hlt
  · intro h
    rcases Nat.eq_zero_or_pos k with rfl | hk
    · have hone : room 0 = 1 := rfl
      obtain rfl : v = 0 := by omega
      decide
    · exact length_encode_le hk h

lemma encode_decode_eq_iff : encode (decode b) = b ↔ b.length ≤ (encode (decode b)).length := by
  constructor
  · intro h
    rw [h]
  · intro h
    exact (eq_encode rfl h).symm

lemma room_le_toNatLE_iff : room b.length ≤ b.toNatLE ↔ ∃ c y, b = c ++ [y] ∧ y &&& 0x80 ≠ 0 := by
  rcases List.eq_nil_or_concat' b with rfl | ⟨c, y, rfl⟩
  · simp [room, Bytes.toNatLE]
  · have hlow := Bytes.toNatLE_lt c
    have hiff : room (c ++ [y]).length ≤ Bytes.toNatLE (c ++ [y]) ↔ y &&& 0x80 ≠ 0 := by
      rw [List.length_append, List.length_singleton, room_succ, Bytes.toNatLE_append,
        and_top_ne_zero_iff]
      simp only [Bytes.toNatLE, Nat.mul_zero, Nat.add_zero]
      -- all but the last byte weigh less than one unit of it
      generalize Nat.pow 256 c.length = p at *
      constructor
      · intro h
        by_contra hlt
        have hle : p * y.toNat ≤ p * 127 := Nat.mul_le_mul_left p (by omega)
        omega
      · intro h
        have hle : p * 128 ≤ p * y.toNat := Nat.mul_le_mul_left p h
        omega
    rw [hiff]
    constructor
    · exact fun h => ⟨c, y, rfl, h⟩
    · rintro ⟨c', y', heq, h⟩
      obtain ⟨-, hlast⟩ := List.append_inj' heq rfl
      cases hlast
      exact h

lemma room_le_magnitude_iff : room b.length ≤ magnitude b x ↔
    x &&& 0x7f ≠ 0 ∨ room b.length ≤ b.toNatLE := by
  have hroom := room_le_pow b.length
  rw [magnitude_eq, and_low_ne_zero_iff]
  rcases Nat.eq_zero_or_pos (x.toNat % 128) with hzero | hpos
  · simp [hzero]
  · have hle : Nat.pow 256 b.length * 1 ≤ Nat.pow 256 b.length * (x.toNat % 128) :=
      Nat.mul_le_mul_left _ hpos
    simp only [hpos, true_or, iff_true]
    omega

lemma minimal_concat_iff : Minimal (b ++ [x]) ↔
    x &&& 0x7f ≠ 0 ∨ ∃ c y, b = c ++ [y] ∧ y &&& 0x80 ≠ 0 := by
  constructor
  · intro h
    generalize heq : b ++ [x] = d at h
    cases h with
    | nil => exact absurd heq (by simp)
    | full c h =>
      obtain ⟨-, hlast⟩ := List.append_inj' heq rfl
      cases hlast
      exact .inl h
    | @taken c y x' h =>
      rw [show c ++ [y, x'] = (c ++ [y]) ++ [x'] by simp] at heq
      obtain ⟨hinit, -⟩ := List.append_inj' heq rfl
      exact .inr ⟨c, y, hinit, h⟩
  · rintro (h | ⟨c, y, rfl, h⟩)
    · exact .full b h
    · rw [List.append_assoc]
      exact .taken c x h

/-- **What is written** for a number is an encoding of it without a byte to spare. -/
lemma encode_decode_eq_iff_minimal (b : Bytes) : encode (decode b) = b ↔ Minimal b := by
  rcases List.eq_nil_or_concat' b with rfl | ⟨b, x, rfl⟩
  · exact iff_of_true rfl .nil
  · have hlength : (b ++ [x]).length = b.length + 1 := by simp
    calc encode (decode (b ++ [x])) = b ++ [x]
        ↔ ¬ (encode (decode (b ++ [x]))).length ≤ b.length := by
          rw [encode_decode_eq_iff, hlength]
          omega
      _ ↔ room b.length ≤ magnitude b x := by
          rw [length_encode_le_iff, natAbs_decode_concat, Nat.not_lt]
      _ ↔ Minimal (b ++ [x]) := by
          rw [room_le_magnitude_iff, room_le_toNatLE_iff, minimal_concat_iff]

/-- **Numbers have canonical encodings.** What is written for a number denotes it; what is written
for the number of any bytes is no longer than they are, is shorter than all other encodings of that
number, and is the same bytes if they have no byte to spare. -/
theorem encode_canonical :
    (∀ v, decode (encode v) = v) ∧
    ∀ b, (encode (decode b)).length ≤ b.length ∧ decode (encode (decode b)) = decode b ∧
      (∀ c, decode c = decode b →
        c = encode (decode b) ∨ (encode (decode b)).length < c.length) ∧
      (encode (decode b) = b ↔ Minimal b) := by
  refine ⟨decode_encode, fun b => ⟨length_encode_decode_le b, decode_encode _, fun c hc => ?_,
    encode_decode_eq_iff_minimal b⟩⟩
  exact isShortest_encode (decode b) c (hc.trans (decode_encode _).symm)

/-- A magnitude that takes the top bit needs a byte for the sign; negative zero needs no byte. -/
example : encode (-128) = [0x80, 0x80] ∧ Minimal ([] ++ [0x80, 0x80]) ∧
    encode (decode [0x80]) = [] :=
  ⟨by decide, .taken [] 0x80 (by decide), by decide⟩

/-! ### Truth -/

lemma truthy_cons (x : UInt8) (h : b ≠ []) : truthy (x :: b) = (x != 0 || truthy b) := by
  rcases b with - | ⟨y, b⟩
  · exact absurd rfl h
  · rfl

lemma truthy_concat (b : Bytes) (x : UInt8) :
    truthy (b ++ [x]) = true ↔ b.toNatLE ≠ 0 ∨ x &&& 0x7f ≠ 0 := by
  induction b with
  | nil =>
    have hx := x.toNat_lt
    have hzero : x = 0 ↔ x.toNat = 0 := UInt8.toNat_inj.symm
    have htop : x = 0x80 ↔ x.toNat = 128 := UInt8.toNat_inj.symm
    rw [and_low_ne_zero_iff]
    simp only [List.nil_append, truthy, Bool.and_eq_true, bne_iff_ne, ne_eq, hzero, htop,
      Bytes.toNatLE, not_true, false_or]
    omega
  | cons y b ih =>
    have hzero : y = 0 ↔ y.toNat = 0 := UInt8.toNat_inj.symm
    rw [List.cons_append, truthy_cons y (by simp), Bool.or_eq_true, ih, bne_iff_ne, ne_eq, hzero,
      Bytes.toNatLE]
    have hsum : y.toNat + 256 * Bytes.toNatLE b ≠ 0 ↔ y.toNat ≠ 0 ∨ Bytes.toNatLE b ≠ 0 := by
      omega
    rw [hsum, or_assoc]

lemma truthy_iff (b : Bytes) : truthy b = true ↔ decode b ≠ 0 := by
  rcases List.eq_nil_or_concat' b with rfl | ⟨b, x, rfl⟩
  · decide
  · rw [truthy_concat, ← Int.natAbs_ne_zero, natAbs_decode_concat, magnitude_ne_zero_iff]

end Number

end CoinScript
