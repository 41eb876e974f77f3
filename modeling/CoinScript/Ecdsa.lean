import CoinScript.Digest
import CoinScript.Ecdsa.Der
import CoinScript.Ecdsa.Key

/-!
Signing digests and verifying signatures.

Nonces are derived from the key and the digest, so signing is a function. A signature always
has its `s` in the lower half of the scalars, and only such signatures verify.
-/

namespace CoinScript.Ecdsa

def scalar (digest : Hash256) : Nat := digest.bytes.toNatBE % Curve.n

/-! ### Nonces -/

/-- The state of the nonce generator: a key and a value. -/
structure Generator where
  key : Bytes
  value : Bytes

namespace Generator

/-- Mixes data into the state, behind a byte that tells the two uses apart. -/
def feed (g : Generator) (tag : UInt8) (data : Bytes) : Generator :=
  let key := Digest.hmacSha256 g.key (g.value ++ tag :: data)
  ⟨key, Digest.hmacSha256 key g.value⟩

/-- The first state, from a key and a digest. -/
def seed (data : Bytes) : Generator :=
  let g : Generator := ⟨List.replicate 32 0, List.replicate 32 1⟩
  (g.feed 0 data).feed 1 data

def next (g : Generator) : Generator :=
  { g with value := Digest.hmacSha256 g.key g.value }

end Generator

/-- The signature of a scalar under a nonce, unless the nonce is of no use. -/
def signWith? (d : SecretKey) (z k : Nat) : Option Signature :=
  if k = 0 ∨ Curve.n ≤ k then none
  else
    match Curve.multiple? k Curve.generator with
    | none => none
    | some point =>
      let r := point.x % Curve.n
      let s := Modular.inv Curve.n k * ((z + r * d.scalar) % Curve.n) % Curve.n
      if r = 0 ∨ s = 0 then none else some (Signature.lower ⟨r, s⟩)

/-! ### One of two nonces can be used -/

variable {d : SecretKey} {z : Nat}

theorem dvd_of_signWith?_eq_none {k : Nat} {point : Curve.Affine} (hk : ¬ (k = 0 ∨ Curve.n ≤ k))
    (hpoint : Curve.multiple? k Curve.generator = some point) (hr : point.x % Curve.n ≠ 0)
    (hinv : Curve.n.Coprime (Modular.inv Curve.n k)) (h : signWith? d z k = none) :
    Curve.n ∣ z + point.x % Curve.n * d.scalar := by
  simp only [signWith?, if_neg hk, hpoint, hr, false_or] at h
  split at h
  · rename_i hs
    have hmod := hinv.dvd_of_dvd_mul_left (Nat.dvd_of_mod_eq_zero hs)
    exact (Nat.dvd_mod_iff (Nat.dvd_refl _)).1 hmod
  · cases h

def double : Curve.Affine where
  x := 0xc6047f9441ed7d6d3045406e95c07cd85c778e4b8cef3ca7abac09b95c709ee5
  y := 0x1ae168fea63dc339a3c58419466ceaeef7f632653266d0e1236431a950cfe52a

theorem multiple?_one : Curve.multiple? 1 Curve.generator = some Curve.generator := by
  decide +kernel

theorem multiple?_two : Curve.multiple? 2 Curve.generator = some double := by
  decide +kernel

/-- No scalar cancels with both. The difference of the points would cancel the secret key, which is
below the order of the group. -/
theorem isSome_signWith? (d : SecretKey) (z : Nat) :
    ((signWith? d z 1).or (signWith? d z 2)).isSome := by
  cases hone : signWith? d z 1 with
  | some sig => rfl
  | none =>
    cases htwo : signWith? d z 2 with
    | some sig => rfl
    | none =>
      have hfirst := dvd_of_signWith?_eq_none (by decide) multiple?_one (by decide)
        (by decide +kernel) hone
      have hsecond := dvd_of_signWith?_eq_none (by decide) multiple?_two (by decide)
        (by decide +kernel) htwo
      have hdifference := Nat.dvd_sub hsecond hfirst
      rw [Nat.add_sub_add_left, ← Nat.sub_mul] at hdifference
      have hkey : Curve.n ∣ d.scalar :=
        Nat.Coprime.dvd_of_dvd_mul_left (by decide +kernel) hdifference
      exact absurd (Nat.le_of_dvd d.pos hkey) (Nat.not_le.2 d.lt)

/-- The signature under the nonce one or, should that be of no use, under two. -/
def signFixed (d : SecretKey) (z : Nat) : Signature :=
  ((signWith? d z 1).or (signWith? d z 2)).get (isSome_signWith? d z)

/-! ### Signing and verifying -/

/-- Tries the nonces of a generator in turn, and after so many of them the fixed ones. -/
def signFrom (d : SecretKey) (z : Nat) : (attempts : Nat) → Generator → Signature
  | 0, _ => signFixed d z
  | attempts + 1, g =>
    let g := g.next
    match signWith? d z g.value.toNatBE with
    | some sig => sig
    | none => signFrom d z attempts (g.feed 0 [])

/-- Signs a digest. All but a vanishing part of nonces can be used, so that one attempt nearly
always is enough. -/
def sign (d : SecretKey) (digest : Hash256) : Signature :=
  let z := scalar digest
  signFrom d z 64 (Generator.seed (Bytes.ofNatBE 32 d.scalar ++ Bytes.ofNatBE 32 z))

def verify (key : PublicKey) (digest : Hash256) (sig : Signature) : Bool :=
  if sig.r = 0 ∨ sig.s = 0 ∨ !sig.isLow then false
  else
    let w := Modular.inv Curve.n sig.s
    match Curve.combine? (scalar digest * w % Curve.n) (sig.r * w % Curve.n) key with
    | none => false
    | some point => point.x % Curve.n == sig.r

end CoinScript.Ecdsa
