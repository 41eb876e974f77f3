import CoinScript.Digest.Ripemd160
import CoinScript.Digest.Sha256

/-!
The two digests that identify things on a chain: the double SHA-256 of thirty-two bytes for
transactions, blocks and signatures, and the twenty bytes that lock an output to a key or to
a script.
-/

namespace CoinScript

/-- A digest of thirty-two bytes, in the order in which it is hashed and stored. -/
structure Hash256 where
  bytes : Bytes
  size : bytes.length = 32
  deriving DecidableEq

namespace Hash256

def zero : Hash256 := ⟨List.replicate 32 0, rfl⟩

def ofBytes? (b : Bytes) : Option Hash256 :=
  if h : b.length = 32 then some ⟨b, h⟩ else none

theorem ofBytes?_bytes (h : Hash256) : ofBytes? h.bytes = some h := by
  simp [ofBytes?, h.size]

end Hash256

def doubleSha256 (b : Bytes) : Hash256 :=
  ⟨Digest.sha256 (Digest.sha256 b), Digest.length_sha256 _⟩

def hash160 (b : Bytes) : Bytes :=
  Digest.ripemd160 (Digest.sha256 b)

theorem length_hash160 (b : Bytes) : (hash160 b).length = 20 :=
  Digest.length_ripemd160 _

end CoinScript
