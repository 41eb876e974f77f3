/-!
Byte strings and the integers they stand for.

A byte string is a list of bytes. Integers are laid out with the least significant byte
first on the wire and with the most significant byte first in digests and curve
coordinates; both readings are given here, each with its inverse at a fixed width.
-/

namespace CoinScript

abbrev Bytes := List UInt8

namespace Bytes

/-- The number a byte string denotes, least significant byte first. -/
def toNatLE : Bytes → Nat
  | [] => 0
  | b :: bs => b.toNat + 256 * toNatLE bs

/-- The low `width` bytes of a number, least significant byte first. -/
def ofNatLE : (width : Nat) → Nat → Bytes
  | 0, _ => []
  | width + 1, n => UInt8.ofNat n :: ofNatLE width (n / 256)

/-- The low `width` bytes of an integer in two's complement. -/
def ofIntLE (width : Nat) (v : Int) : Bytes :=
  ofNatLE width (v % (Nat.pow 256 width : Nat)).toNat

def toIntLE (b : Bytes) : Int :=
  if toNatLE b < Nat.pow 2 (8 * b.length - 1) then toNatLE b
  else (toNatLE b : Int) - (Nat.pow 256 b.length : Nat)

def toNatBE (b : Bytes) : Nat :=
  b.foldl (fun n x => 256 * n + x.toNat) 0

def ofNatBE (width : Nat) (n : Nat) : Bytes :=
  (ofNatLE width n).reverse

@[simp] theorem length_ofNatLE (width n : Nat) : (ofNatLE width n).length = width := by
  induction width generalizing n with
  | zero => rfl
  | succ width ih => simp [ofNatLE, ih]

@[simp] theorem length_ofIntLE (width : Nat) (v : Int) : (ofIntLE width v).length = width :=
  length_ofNatLE _ _

@[simp] theorem length_ofNatBE (width n : Nat) : (ofNatBE width n).length = width := by
  simp [ofNatBE]

theorem toNatLE_lt (b : Bytes) : toNatLE b < Nat.pow 256 b.length := by
  induction b with
  | nil => simp [toNatLE]
  | cons x b ih =>
    have := x.toNat_lt
    have : Nat.pow 256 (b.length + 1) = 256 * Nat.pow 256 b.length := Nat.mul_comm _ _
    simp only [toNatLE, List.length_cons]
    omega

theorem toNatLE_ofNatLE (width n : Nat) : toNatLE (ofNatLE width n) = n % Nat.pow 256 width := by
  induction width generalizing n with
  | zero => simp [toNatLE, ofNatLE, Nat.mod_one]
  | succ width ih =>
    have h : Nat.pow 256 (width + 1) = 256 * Nat.pow 256 width := Nat.mul_comm _ _
    rw [h, Nat.mod_mul, ofNatLE, toNatLE, ih, UInt8.toNat_ofNat']

theorem ofNatLE_toNatLE (b : Bytes) : ofNatLE b.length (toNatLE b) = b := by
  induction b with
  | nil => rfl
  | cons x b ih =>
    have hx := x.toNat_lt
    have hd : (x.toNat + 256 * toNatLE b) / 256 = toNatLE b := by omega
    have hm : UInt8.ofNat (x.toNat + 256 * toNatLE b) = x := by
      apply UInt8.toNat_inj.1
      rw [UInt8.toNat_ofNat']
      omega
    simp [ofNatLE, toNatLE, hd, hm, ih]

theorem toNatBE_reverse (b : Bytes) : toNatBE b.reverse = toNatLE b := by
  rw [toNatBE, List.foldl_reverse]
  induction b with
  | nil => rfl
  | cons x b ih => rw [List.foldr_cons, ih, toNatLE, Nat.add_comm]

theorem toNatBE_ofNatBE (width n : Nat) : toNatBE (ofNatBE width n) = n % Nat.pow 256 width := by
  rw [ofNatBE, toNatBE_reverse, toNatLE_ofNatLE]

end Bytes

end CoinScript
