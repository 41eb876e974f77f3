/-!
Numbers as a JSON text writes them, digit by digit.

A number that is not asked to be an integer is taken as a float, in two roundings. The digits,
as long as the number they make fits eight bytes, become the nearest float; and so does the
power of ten that the other digits, the point and the exponent amount to. Their product must
still be near a float. So numbers just below the largest float can be too large, and numbers
just above it need not be.
-/

namespace CoinScript

/-- The number that decimal digits make. -/
def ofDigits (digits : List Nat) : Nat :=
  digits.foldl (fun n d => 10 * n + d) 0

/-- A number as written. -/
structure Numeral where
  negative : Bool
  /-- The digits before the point. -/
  whole : List Nat
  /-- The digits behind the point. -/
  fraction : List Nat
  exponent? : Option Int

namespace Numeral

/-! ### Integers -/

/-- The integer written, minus zero included. -/
def signedInt? (n : Numeral) : Option Int :=
  if n.fraction.isEmpty && n.exponent?.isNone then
    some (if n.negative then -(ofDigits n.whole : Int) else ofDigits n.whole)
  else none

/-- The integer written. Minus zero is not one. -/
def int? (n : Numeral) : Option Int :=
  n.signedInt?.filter fun v => !(n.negative && v == 0)

/-! ### Floats -/

/-- Appends digits to a number as long as it fits eight bytes: the number, and the digits that
are left. -/
def extend : (n : Nat) → (digits : List Nat) → Nat × List Nat
  | n, [] => (n, [])
  | n, d :: rest =>
    if 10 * n + d < 0x10000000000000000 then extend (10 * n + d) rest else (n, d :: rest)

/-- The digits that count as a number, and the power of ten that the others leave it to be
multiplied by. Digits behind the point are appended even if some before it are left out. -/
def parts (n : Numeral) : Nat × Int :=
  let (m, wholeLeft) := extend 0 n.whole
  let (m, fractionLeft) := extend m n.fraction
  (m, n.exponent?.getD 0 + wholeLeft.length + fractionLeft.length - n.fraction.length)

/-- The float nearest to a natural number, of the two nearest the even one: fifty-three bits
are kept. -/
def nearest (n : Nat) : Nat :=
  let unit := Nat.pow 2 (n.log2 - 52)
  let q := n / unit
  let r := n % unit
  if unit < 2 * r ∨ (unit = 2 * r ∧ q % 2 = 1) then (q + 1) * unit else q * unit

/-- The least number too large for a float: halfway from the largest float to the next power of
two. -/
def floatBound : Nat := Nat.pow 2 1024 - Nat.pow 2 970

/-- The largest exponent whose power of ten is near a float. -/
def maxScale : Int := 308

/-- Whether a number can be taken as a float. -/
def isFinite (n : Numeral) : Bool :=
  let (m, scale) := n.parts
  if m = 0 ∨ scale < 0 then true
  else if maxScale < scale then false
  else nearest m * nearest (Nat.pow 10 scale.toNat) < floatBound

end Numeral

end CoinScript
