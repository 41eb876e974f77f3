import CoinScript.Bytes

/-!
The curve `y² = x³ + 7` over the integers modulo the prime `2 ^ 256 - 2 ^ 32 - 977`.

Coordinates are natural numbers below the prime. Points are added in Jacobian form, where
`(x, y, z)` stands for `(x / z², y / z³)` and `z = 0` for the point at infinity.
-/

namespace CoinScript

/-! ### Arithmetic modulo a number -/

namespace Modular

def sub (m a b : Nat) : Nat := (a + (m - b % m)) % m

/-- `b ^ e` modulo `m`, for exponents below `2 ^ bits`. -/
def pow (m : Nat) : (bits : Nat) → (b e : Nat) → Nat
  | 0, _, _ => 1 % m
  | bits + 1, b, e =>
    let r := pow m bits (b * b % m) (e / 2)
    if e % 2 = 1 then b * r % m else r

/-- The inverse modulo a prime below `2 ^ 256`; zero for zero. -/
def inv (m a : Nat) : Nat := pow m 256 a (m - 2)

end Modular

namespace Curve

/-- The prime of the coordinates. -/
def p : Nat := 0xfffffffffffffffffffffffffffffffffffffffffffffffffffffffefffffc2f

/-- The prime order of the group. -/
def n : Nat := 0xfffffffffffffffffffffffffffffffebaaedce6af48a03bbfd25e8cd0364141

/-- A pair of coordinates. -/
structure Affine where
  x : Nat
  y : Nat
  deriving DecidableEq

/-- The right-hand side of the curve's equation. -/
def cubic (x : Nat) : Nat := (x * x % p * x + 7) % p

def Affine.onCurve (a : Affine) : Bool :=
  a.x < p && a.y < p && a.y * a.y % p == cubic a.x

def generator : Affine where
  x := 0x79be667ef9dcbbac55a06295ce870b07029bfcdb2dce28d959f2815b16f81798
  y := 0x483ada7726a3c4655da4fbfc0e1108a8fd17b448a68554199c47d08ffb10d4b8

/-- A square root modulo the prime, if the number has one. -/
def sqrt? (a : Nat) : Option Nat :=
  let r := Modular.pow p 256 a ((p + 1) / 4)
  if r * r % p = a % p then some r else none

/-- A point in Jacobian form. -/
structure Jacobian where
  x : Nat
  y : Nat
  z : Nat

namespace Jacobian

def infinity : Jacobian := ⟨1, 1, 0⟩

def ofAffine (a : Affine) : Jacobian := ⟨a.x, a.y, 1⟩

def double (a : Jacobian) : Jacobian :=
  if a.z = 0 ∨ a.y = 0 then infinity
  else
    let yy := a.y * a.y % p
    let s := 4 * a.x * yy % p
    let m := 3 * a.x * a.x % p
    let x := Modular.sub p (m * m % p) (2 * s % p)
    let y := Modular.sub p (m * Modular.sub p s x % p) (8 * yy * yy % p)
    ⟨x, y, 2 * a.y * a.z % p⟩

def add (a b : Jacobian) : Jacobian :=
  if a.z = 0 then b
  else if b.z = 0 then a
  else
    let aa := a.z * a.z % p
    let bb := b.z * b.z % p
    let u := a.x * bb % p
    let s := a.y * bb % p * b.z % p
    let h := Modular.sub p (b.x * aa % p) u
    let r := Modular.sub p (b.y * aa % p * a.z % p) s
    if h = 0 then if r = 0 then double a else infinity
    else
      let hh := h * h % p
      let hhh := h * hh % p
      let v := u * hh % p
      let x := Modular.sub p (Modular.sub p (r * r % p) hhh) (2 * v % p)
      let y := Modular.sub p (r * Modular.sub p v x % p) (s * hhh % p)
      ⟨x, y, a.z * b.z % p * h % p⟩

def mul : (bits : Nat) → (k : Nat) → Jacobian → Jacobian
  | 0, _, _ => infinity
  | bits + 1, k, a =>
    let r := mul bits (k / 2) (double a)
    if k % 2 = 1 then add a r else r

def affine? (a : Jacobian) : Option Affine :=
  if a.z = 0 then none
  else
    let i := Modular.inv p a.z
    let ii := i * i % p
    some ⟨a.x * ii % p, a.y * ii % p * i % p⟩

end Jacobian

def multiple? (k : Nat) (a : Affine) : Option Affine :=
  (Jacobian.mul 256 k (Jacobian.ofAffine a)).affine?

/-- The sum of a multiple of the generator and a multiple of a point. -/
def combine? (k : Nat) (l : Nat) (a : Affine) : Option Affine :=
  ((Jacobian.mul 256 k (Jacobian.ofAffine generator)).add
    (Jacobian.mul 256 l (Jacobian.ofAffine a))).affine?

end Curve

end CoinScript
