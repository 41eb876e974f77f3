import CoinScript.Curve
import CoinScript.Fault

/-!
Secret and public keys as bytes.

A public key is written in thirty-three bytes: the parity of `y` and then `x`. Also read are
sixty-five bytes with both coordinates, behind a first byte that may state the parity of `y`.
-/

namespace CoinScript.Ecdsa

/-- A secret key: a number from one up to the order of the group. -/
structure SecretKey where
  scalar : Nat
  pos : 0 < scalar
  lt : scalar < Curve.n

def SecretKey.ofBytes (b : Bytes) : Except Fault SecretKey :=
  let k := b.toNatBE
  if h : b.length = 32 ∧ 0 < k ∧ k < Curve.n then .ok ⟨k, h.2.1, h.2.2⟩
  else .error (.signature .secretKey)

abbrev PublicKey := Curve.Affine

namespace PublicKey

/-- The key with a first coordinate and a parity of the second, if there is one. -/
def ofX? (x : Nat) (odd : Bool) : Option PublicKey :=
  if x < Curve.p then
    (Curve.sqrt? (Curve.cubic x)).map fun y =>
      ⟨x, if (y % 2 == 1) == odd then y else (Curve.p - y) % Curve.p⟩
  else none

/-- A key of both coordinates, if it is a point of the curve. -/
def ofXY? (x y : Nat) : Option PublicKey :=
  let key : PublicKey := ⟨x, y⟩
  if key.onCurve then some key else none

/-- A public key in any of its forms. -/
def ofBytes? (b : Bytes) : Option PublicKey :=
  match b with
  | [] => none
  | form :: rest =>
    let x := Bytes.toNatBE (rest.take 32)
    let y := Bytes.toNatBE (rest.drop 32)
    if rest.length = 32 then
      if form = 2 then ofX? x false else if form = 3 then ofX? x true else none
    else if rest.length = 64 then
      if form = 4 then ofXY? x y
      else if form = 6 ∧ y % 2 = 0 then ofXY? x y
      else if form = 7 ∧ y % 2 = 1 then ofXY? x y
      else none
    else none

def compressed (key : PublicKey) : Bytes :=
  (if key.y % 2 = 1 then 3 else 2) :: Bytes.ofNatBE 32 key.x

end PublicKey

def SecretKey.publicKey (d : SecretKey) : PublicKey :=
  (Curve.multiple? d.scalar Curve.generator).getD Curve.generator

end CoinScript.Ecdsa
