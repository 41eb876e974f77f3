import CoinScript.Curve

/-!
Signatures as bytes: two integers in the distinguished encoding.

Writing is strict. Reading is lax: the length of the sequence is not looked at, lengths may be
in long form, integers may have zeros in front or look negative, and bytes may follow. An
integer that is no scalar makes both read as zero, which no key verifies.
-/

namespace CoinScript.Ecdsa

/-- A pair of scalars. -/
structure Signature where
  r : Nat
  s : Nat
  deriving DecidableEq

/-- Whether `s` is in the lower half of the scalars. -/
def Signature.isLow (sig : Signature) : Bool := sig.s ≤ Curve.n / 2

def Signature.lower (sig : Signature) : Signature :=
  if sig.isLow then sig else ⟨sig.r, Curve.n - sig.s⟩

namespace Der

/-- An integer with its tag and length, in the fewest bytes that keep its sign clear. -/
def encodeInteger (n : Nat) : Bytes :=
  let size := (n.log2 + 1) / 8 + 1
  0x02 :: UInt8.ofNat size :: Bytes.ofNatBE size n

def encode (sig : Signature) : Bytes :=
  let body := encodeInteger sig.r ++ encodeInteger sig.s
  0x30 :: UInt8.ofNat body.length :: body

/-- What follows the length of a sequence, whatever the length says. -/
def skipLength? (b : Bytes) : Option Bytes :=
  match b with
  | [] => none
  | first :: rest =>
    let n := first.toNat
    if n < 128 then some rest
    else if rest.length < n - 128 then none
    else some (rest.drop (n - 128))

/-- A length and what follows it. In long form zeros in front do not count, and what is left
must be below eight bytes. -/
def length? (b : Bytes) : Option (Nat × Bytes) :=
  match b with
  | [] => none
  | first :: rest =>
    let n := first.toNat
    if n < 128 then some (n, rest)
    else if rest.length < n - 128 then none
    else
      let digits := (rest.take (n - 128)).dropWhile (· == 0)
      if 8 ≤ digits.length then none else some (Bytes.toNatBE digits, rest.drop (n - 128))

/-- An integer, as the bytes of its magnitude, and what follows it. -/
def integer? (b : Bytes) : Option (Bytes × Bytes) :=
  match b with
  | 0x02 :: rest => do
    let (size, rest) ← length? rest
    if rest.length < size then none
    else some (rest.take size, rest.drop size)
  | _ => none

/-- Reads a signature by the lax rules. -/
def decodeLax? (b : Bytes) : Option Signature :=
  match b with
  | 0x30 :: rest => do
    let (r, rest) ← integer? (← skipLength? rest)
    let (s, _) ← integer? rest
    if r.toNatBE < Curve.n ∧ s.toNatBE < Curve.n then some ⟨r.toNatBE, s.toNatBE⟩
    else some ⟨0, 0⟩
  | _ => none

end Der

end CoinScript.Ecdsa
