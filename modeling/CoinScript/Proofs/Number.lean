import Mathlib.Tactic.Common
import Mathlib.Tactic.Ring
import CoinScript.Machine.Arithmetic

/-!
How long script numbers are.

So many bytes, of which there is at least one, hold the magnitudes that leave the top bit to the
sign. Encodings that are longer than they need be denote such a number too. So a sum or a difference
takes one byte more than its operands at most, and a sign or a choice between them none.
-/

namespace CoinScript

namespace Number

variable {k : Nat}

/-- The magnitudes that so many bytes hold besides the sign are those below this. -/
def room (k : Nat) : Nat := Nat.pow 2 (8 * k - 1)

lemma room_mono {j : Nat} (h : j ≤ k) : room j ≤ room k :=
  Nat.pow_le_pow_right (by decide) (by omega)

lemma two_mul_room_le (hk : 0 < k) : 2 * room k ≤ room (k + 1) := by
  have hle : Nat.pow 2 (8 * k - 1 + 1) ≤ Nat.pow 2 (8 * (k + 1) - 1) :=
    Nat.pow_le_pow_right (by decide) (by omega)
  rw [Nat.pow_eq, Nat.pow_succ] at hle
  unfold room
  rw [Nat.pow_eq]
  omega

lemma room_pos (k : Nat) : 0 < room k := Nat.two_pow_pos _

lemma two_mul_room (hk : 0 < k) : 2 * room k = Nat.pow 256 k := by
  unfold room
  rw [Nat.pow_eq, Nat.pow_eq, show (256 : Nat) = 2 ^ 8 by rfl, ← Nat.pow_mul, ← Nat.pow_succ']
  congr 1
  omega

lemma natAbs_decode_lt {b : Bytes} (hb : b ≠ []) : (decode b).natAbs < room b.length := by
  have hlt : b.toNatLE < 2 * room b.length := by
    rw [two_mul_room (List.length_pos_iff.2 hb)]
    exact Bytes.toNatLE_lt b
  unfold decode signWeight
  change (if b.toNatLE < room b.length then (b.toNatLE : Int)
    else -((b.toNatLE - room b.length : Nat) : Int)).natAbs < room b.length
  split <;> omega

lemma natAbs_decode_lt_of_le {b : Bytes} (h : b.length ≤ k) : (decode b).natAbs < room k := by
  rcases b with - | ⟨x, b⟩
  · exact room_pos k
  · exact Nat.lt_of_lt_of_le (natAbs_decode_lt (List.cons_ne_nil x b)) (room_mono h)

lemma length_encode_le {v : Int} (hk : 0 < k) (h : v.natAbs < room k) : (encode v).length ≤ k := by
  unfold encode
  rw [Bytes.length_ofNatLE]
  unfold width
  by_cases hzero : v.natAbs = 0
  · rw [if_pos hzero]
    exact Nat.zero_le k
  · rw [if_neg hzero]
    have hlog : v.natAbs.log2 < 8 * k - 1 := (Nat.log2_lt hzero).2 h
    omega

lemma length_encode_natCast_le {n : Nat} (hn : n ≤ k) : (encode n).length ≤ k := by
  rcases Nat.eq_zero_or_pos k with rfl | hk
  · obtain rfl : n = 0 := by omega
    decide
  · refine length_encode_le hk ?_
    rw [Int.natAbs_natCast]
    calc n ≤ k := hn
      _ ≤ 8 * k - 1 := by omega
      _ < room k := Nat.lt_two_pow_self

lemma length_ofBool_le (b : Bool) : (ofBool b).length ≤ 1 := by
  cases b <;> decide

end Number

/-! ### Results of operations -/

variable {k : Nat}

lemma UnaryOp.length_encode_eval_le {op : UnaryOp} (hdouble : op ≠ double) (hhalve : op ≠ halve)
    {a : Bytes} (hk : 0 < k) (ha : a.length ≤ k) :
    (Number.encode (op.eval (Number.decode a))).length ≤ k + 1 := by
  have hroom := Number.two_mul_room_le hk
  have hlt := Number.natAbs_decode_lt_of_le ha
  have heval : (op.eval (Number.decode a)).natAbs ≤ (Number.decode a).natAbs + 1 := by
    generalize Number.decode a = n
    cases op with
    | double => exact absurd rfl hdouble
    | halve => exact absurd rfl hhalve
    | isZero | isNonzero =>
      simp only [eval]
      split <;> omega
    | _ =>
      simp only [eval]
      omega
  exact Number.length_encode_le (Nat.succ_pos k) (by omega)

lemma BinaryOp.length_encode_eval?_le {op : BinaryOp} (hmul : op ≠ mul) (hdiv : op ≠ div)
    (hmod : op ≠ mod) {a b : Bytes} (hk : 0 < k) (ha : a.length ≤ k) (hb : b.length ≤ k) {r : Int}
    (h : op.eval? (Number.decode a) (Number.decode b) = some r) :
    (Number.encode r).length ≤ k + 1 := by
  have hroom := Number.two_mul_room_le hk
  have hlta := Number.natAbs_decode_lt_of_le ha
  have hltb := Number.natAbs_decode_lt_of_le hb
  have hflag (p : Bool) : (flag p).natAbs ≤ 1 := by cases p <;> decide
  -- no other operation goes beyond the sum of the magnitudes and one
  have heval : r.natAbs ≤ (Number.decode a).natAbs + (Number.decode b).natAbs + 1 := by
    generalize Number.decode a = x at h
    generalize Number.decode b = y at h
    cases op with
    | mul => exact absurd rfl hmul
    | div => exact absurd rfl hdiv
    | mod => exact absurd rfl hmod
    | add | sub | min | max =>
      simp only [eval?, Option.some.injEq] at h
      omega
    | _ =>
      simp only [eval?, Option.some.injEq] at h
      rw [← h]
      exact Nat.le_trans (hflag _) (Nat.le_add_left 1 _)
  exact Number.length_encode_le (Nat.succ_pos k) (by omega)

end CoinScript
