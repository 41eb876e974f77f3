import Mathlib.Tactic.Common
import CoinScript.Wire.CompactSize

/-!
Reading is exact: a read accepts a value precisely where the bytes written for that value
stand, and the value is one that the form can hold.

Each of the reads that records are made of gets one equivalence. From left to right it says
that nothing but the written form is accepted, from right to left that the written form is,
whatever follows it.
-/

namespace CoinScript

/-! ### Places between which bytes lie -/

/-- The bytes `b` lie between two places of one byte string. -/
def Cursor.Spans (c : Cursor) (b : Bytes) (c' : Cursor) : Prop :=
  c.rest = b ++ c'.rest ∧ c'.offset = c.offset + b.length

namespace Cursor

variable {c c' : Cursor} {a b : Bytes}

@[simp] lemma spans_nil : c.Spans [] c' ↔ c' = c := by
  rcases c with ⟨o, r⟩
  rcases c' with ⟨o', r'⟩
  simp [Spans, and_comm, eq_comm]

lemma spans_append : c.Spans (a ++ b) c' ↔ ∃ d, c.Spans a d ∧ d.Spans b c' := by
  constructor
  · rintro ⟨hr, ho⟩
    refine ⟨⟨c.offset + a.length, b ++ c'.rest⟩, ⟨by simp [hr], rfl⟩, rfl, ?_⟩
    rw [ho, List.length_append, Nat.add_assoc]
  · rintro ⟨d, ⟨hr, ho⟩, hr', ho'⟩
    exact ⟨by rw [hr, hr', List.append_assoc], by rw [ho', ho, List.length_append, Nat.add_assoc]⟩

lemma spans_cons {x : UInt8} :
    c.Spans (x :: b) c' ↔ ∃ d, c.Spans [x] d ∧ d.Spans b c' :=
  spans_append (a := [x])

lemma Spans.length_le (h : c.Spans b c') : b.length ≤ c.remaining := by
  simp [remaining, h.1]

end Cursor

/-! ### Integers of a fixed width -/

namespace Bytes

lemma pow_width {w : Nat} (h : 0 < w) : Nat.pow 256 w = 2 * Nat.pow 2 (8 * w - 1) := by
  have h1 : Nat.pow 256 w = Nat.pow 2 (8 * w) := (Nat.pow_mul 2 8 w).symm
  rw [h1, show 8 * w = (8 * w - 1) + 1 by omega]
  exact Nat.mul_comm _ _

lemma ofIntLE_toIntLE (b : Bytes) : ofIntLE b.length (toIntLE b) = b := by
  have hlt := toNatLE_lt b
  have hmod : (toIntLE b % (Nat.pow 256 b.length : Nat)).toNat = toNatLE b := by
    unfold toIntLE
    split
    · rw [Int.emod_eq_of_lt (by omega) (by omega)]; omega
    · rw [Int.sub_emod_right, Int.emod_eq_of_lt (by omega) (by omega)]; omega
  rw [ofIntLE, hmod, ofNatLE_toNatLE]

end Bytes

lemma intFits_signed {v : Int} {w : Nat} (hw : w ≤ 8) :
    intFits v w true ↔ -(Nat.pow 2 (8 * w - 1) : Nat) ≤ v ∧ v < (Nat.pow 2 (8 * w - 1) : Nat) := by
  simp [intFits, Nat.min_eq_left hw]

lemma intFits_unsigned {n w : Nat} (hw : w ≤ 8) :
    intFits n w false ↔ n < Nat.pow 256 w := by
  have h1 : Nat.pow 256 w = Nat.pow 2 (8 * w) := (Nat.pow_mul 2 8 w).symm
  simp only [intFits, Nat.min_eq_left hw, Bool.false_eq_true, if_false, Bool.and_eq_true,
    decide_eq_true_eq, h1]
  omega

namespace Bytes

lemma intFits_toIntLE {b : Bytes} (h0 : 0 < b.length) (h8 : b.length ≤ 8) :
    intFits (toIntLE b) b.length true := by
  have hlt := toNatLE_lt b
  have hp := pow_width h0
  rw [intFits_signed h8]
  unfold toIntLE
  split <;> omega

lemma toIntLE_ofIntLE {v : Int} {w : Nat} (h0 : 0 < w) (h8 : w ≤ 8) (h : intFits v w true) :
    toIntLE (ofIntLE w v) = v := by
  have hp := pow_width h0
  rw [intFits_signed h8] at h
  have hn : toNatLE (ofIntLE w v) = (v % (Nat.pow 256 w : Nat)).toNat := by
    rw [ofIntLE, toNatLE_ofNatLE, Nat.mod_eq_of_lt]
    have := Int.emod_lt_of_pos v (show (0 : Int) < (Nat.pow 256 w : Nat) by omega)
    have := Int.emod_nonneg v (show ((Nat.pow 256 w : Nat) : Int) ≠ 0 by omega)
    omega
  rw [toIntLE, hn, length_ofIntLE]
  rcases Int.lt_or_le v 0 with hv | hv
  · have : v % (Nat.pow 256 w : Nat) = v + (Nat.pow 256 w : Nat) := by
      rw [← Int.add_emod_right, Int.emod_eq_of_lt (by omega) (by omega)]
    split <;> omega
  · have : v % (Nat.pow 256 w : Nat) = v := Int.emod_eq_of_lt hv (by omega)
    split <;> omega

end Bytes

/-! ### The shape of a read -/

namespace Read

variable {α β : Type} {c c' : Cursor}

lemma bind_eq_ok {m : Read α} {f : α → Read β} {b : β} :
    (m >>= f) c = .ok (b, c') ↔ ∃ a d, m c = .ok (a, d) ∧ f a d = .ok (b, c') := by
  change (m c >>= fun p => f p.1 p.2) = _ ↔ _
  rcases m c with e | ⟨a, d⟩ <;> simp [bind, Except.bind]

lemma pure_eq_ok {a b : α} : (pure a : Read α) c = .ok (b, c') ↔ b = a ∧ c' = c := by
  change Except.ok (a, c) = _ ↔ _
  simp [eq_comm]

lemma map_eq_ok {m : Read α} {f : α → β} {b : β} :
    (f <$> m) c = .ok (b, c') ↔ ∃ a, m c = .ok (a, c') ∧ b = f a := by
  change (m c >>= fun p => pure (f p.1, p.2)) = _ ↔ _
  rcases m c with e | ⟨a, d⟩ <;> simp [bind, Except.bind, pure, Except.pure]
  grind

lemma throw_ne_ok {e : Fault} {a : α} : (throw e : Read α) c ≠ .ok (a, c') := nofun

/-! ### Bytes and numbers -/

lemma bytes_eq_ok {n : Nat} {b : Bytes} :
    bytes n c = .ok (b, c') ↔ b.length = n ∧ c.Spans b c' := by
  rcases c with ⟨o, r⟩
  rcases c' with ⟨o', r'⟩
  simp only [bytes, Cursor.Spans, Cursor.advance, Cursor.remaining]
  constructor
  · intro h
    split at h
    · cases h
    · rename_i hlen
      cases h
      simp only [List.length_take] at hlen ⊢
      exact ⟨by omega, (List.take_append_drop n r).symm, by omega⟩
  · rintro ⟨rfl, rfl, rfl⟩
    simp

lemma uint_eq_ok {w n : Nat} :
    uint w c = .ok (n, c') ↔ n < Nat.pow 256 w ∧ c.Spans (Bytes.ofNatLE w n) c' := by
  simp only [uint, bind_eq_ok, pure_eq_ok, bytes_eq_ok]
  constructor
  · rintro ⟨b, d, ⟨rfl, hs⟩, rfl, rfl⟩
    exact ⟨Bytes.toNatLE_lt b, by rwa [Bytes.ofNatLE_toNatLE]⟩
  · rintro ⟨hn, hs⟩
    refine ⟨_, c', ⟨Bytes.length_ofNatLE w n, hs⟩, ?_, rfl⟩
    rw [Bytes.toNatLE_ofNatLE, Nat.mod_eq_of_lt hn]

lemma int_eq_ok {w : Nat} {v : Int} (h0 : 0 < w) (h8 : w ≤ 8) :
    int w c = .ok (v, c') ↔ intFits v w true ∧ c.Spans (Bytes.ofIntLE w v) c' := by
  simp only [int, bind_eq_ok, pure_eq_ok, bytes_eq_ok]
  constructor
  · rintro ⟨b, d, ⟨rfl, hs⟩, rfl, rfl⟩
    exact ⟨Bytes.intFits_toIntLE h0 h8, by rwa [Bytes.ofIntLE_toIntLE]⟩
  · rintro ⟨hv, hs⟩
    exact ⟨_, c', ⟨Bytes.length_ofIntLE w v, hs⟩, (Bytes.toIntLE_ofIntLE h0 h8 hv).symm, rfl⟩

lemma hash_eq_ok {h : Hash256} : hash c = .ok (h, c') ↔ c.Spans h.bytes c' := by
  have hb : hash c = .ok (h, c') ↔ bytes 32 c = .ok (h.bytes, c') := by
    rcases h with ⟨b, hb⟩
    by_cases hl : (c.rest.take 32).length = 32
    · simp only [hash, bytes, Hash256.ofBytes?, hl, dif_pos, Nat.lt_irrefl, if_false]
      simp
    · have : (c.rest.take 32).length < 32 := by simp only [List.length_take] at hl ⊢; omega
      simp only [hash, bytes, Hash256.ofBytes?, hl, this, dif_neg, not_false_iff, if_true]
      simp
  rw [hb, bytes_eq_ok]
  simp [h.size]

end Read

/-! ### Compact sizes -/

namespace CompactSize

lemma encode_short {n : Nat} (h : n < 0xfd) : encode n = [UInt8.ofNat n] := if_pos h

lemma encode_marked {m n : Nat} (hm : 0xfd ≤ m) (hm' : m < 0x100)
    (hl : (form (UInt8.ofNat m)).2 ≤ n) (hu : n < Nat.pow 256 (form (UInt8.ofNat m)).1) :
    encode n = UInt8.ofNat m :: Bytes.ofNatLE (form (UInt8.ofNat m)).1 n := by
  have hcases : m = 0xfd ∨ m = 0xfe ∨ m = 0xff := by omega
  unfold encode
  rcases hcases with rfl | rfl | rfl
  · change 0xfd ≤ n at hl
    change n < 0x10000 at hu
    rw [if_neg (by omega), if_pos hu]
    rfl
  · change 0x10000 ≤ n at hl
    change n < 0x100000000 at hu
    rw [if_neg (by omega), if_neg (by omega), if_pos hu]
    rfl
  · change 0x100000000 ≤ n at hl
    rw [if_neg (by omega), if_neg (by omega), if_neg (by omega)]
    rfl

lemma exists_marker {n : Nat} (h : 0xfd ≤ n) (hn : n < Nat.pow 256 8) :
    ∃ m, 0xfd ≤ m ∧ m < 0x100 ∧ (form (UInt8.ofNat m)).2 ≤ n ∧
      n < Nat.pow 256 (form (UInt8.ofNat m)).1 := by
  rcases Nat.lt_or_ge n 0x10000 with h2 | h2
  · exact ⟨0xfd, by omega, by omega, h, h2⟩
  · rcases Nat.lt_or_ge n 0x100000000 with h4 | h4
    · exact ⟨0xfe, by omega, by omega, h2, h4⟩
    · exact ⟨0xff, by omega, by omega, h4, hn⟩

lemma lt_of_lt_form {b : UInt8} {n : Nat} (h : n < Nat.pow 256 (form b).1) :
    n < Nat.pow 256 8 := by
  refine Nat.lt_of_lt_of_le h (Nat.pow_le_pow_right (by omega) ?_)
  unfold form
  split_ifs <;> decide

end CompactSize

namespace Read

variable {c c' : Cursor}

lemma marked_eq_ok {w least n : Nat} {e : Nat → Cursor → EncodingFault} :
    (do let n ← uint w
        if n < least then throw (.encoding (e n (← get)))
        return n : Read Nat) c = .ok (n, c') ↔
      least ≤ n ∧ n < Nat.pow 256 w ∧ c.Spans (Bytes.ofNatLE w n) c' := by
  rw [bind_eq_ok]
  constructor
  · rintro ⟨x, d, hx, h⟩
    split at h
    · obtain ⟨_, _, -, h⟩ := bind_eq_ok.1 h
      obtain ⟨_, _, h, -⟩ := bind_eq_ok.1 h
      exact absurd h throw_ne_ok
    · obtain ⟨rfl, rfl⟩ := pure_eq_ok.1 h
      exact ⟨by omega, uint_eq_ok.1 hx⟩
  · rintro ⟨hl, h⟩
    exact ⟨n, c', uint_eq_ok.2 h, by rw [if_neg (by omega)]; rfl⟩

lemma compactSize_eq_ok {n : Nat} :
    compactSize c = .ok (n, c') ↔ n < Nat.pow 256 8 ∧ c.Spans (CompactSize.encode n) c' := by
  unfold compactSize
  rw [bind_eq_ok]
  constructor
  · rintro ⟨m, d, hm, h⟩
    obtain ⟨hm', hs⟩ := uint_eq_ok.1 hm
    -- a first byte below the markers is the number itself
    by_cases hfd : m < 0xfd
    · rw [if_pos hfd] at h
      obtain ⟨rfl, rfl⟩ := pure_eq_ok.1 h
      rw [CompactSize.encode_short hfd]
      exact ⟨Nat.lt_trans hm' (by decide), hs⟩
    · rw [if_neg hfd] at h
      obtain ⟨hl, hu, hs'⟩ := marked_eq_ok.1 h
      rw [CompactSize.encode_marked (by omega) hm' hl hu]
      exact ⟨CompactSize.lt_of_lt_form hu, Cursor.spans_cons.2 ⟨d, hs, hs'⟩⟩
  · rintro ⟨hn, hs⟩
    by_cases hfd : n < 0xfd
    · rw [CompactSize.encode_short hfd] at hs
      refine ⟨n, c', uint_eq_ok.2 ⟨Nat.lt_trans hfd (by decide), hs⟩, ?_⟩
      rw [if_pos hfd]
      rfl
    · obtain ⟨m, hm, hm', hl, hu⟩ := CompactSize.exists_marker (by omega) hn
      rw [CompactSize.encode_marked hm hm' hl hu] at hs
      obtain ⟨d, hd, hs'⟩ := Cursor.spans_cons.1 hs
      refine ⟨m, d, uint_eq_ok.2 ⟨hm', hd⟩, ?_⟩
      rw [if_neg (by omega)]
      exact marked_eq_ok.2 ⟨hl, hu, hs'⟩

lemma varBytes_eq_ok {b : Bytes} :
    varBytes c = .ok (b, c') ↔
      b.length < Nat.pow 256 8 ∧ c.Spans (CompactSize.encodeBytes b) c' := by
  simp only [varBytes, bind_eq_ok, compactSize_eq_ok, bytes_eq_ok, CompactSize.encodeBytes,
    Cursor.spans_append]
  constructor
  · rintro ⟨n, d, ⟨hn, hs⟩, rfl, hs'⟩
    exact ⟨hn, d, hs, hs'⟩
  · rintro ⟨hn, d, hs, hs'⟩
    exact ⟨b.length, d, ⟨hn, hs⟩, rfl, hs'⟩

end Read

end CoinScript
