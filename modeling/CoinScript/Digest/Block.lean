import CoinScript.Bytes

/-!
What the block digests share: thirty-two bit words, the padding of a message to whole blocks
of sixty-four bytes, and the fold of a compression function over the blocks.
-/

namespace CoinScript.Digest

def rotl (x n : UInt32) : UInt32 :=
  (x <<< n) ||| (x >>> (32 - n))

def rotr (x n : UInt32) : UInt32 :=
  (x >>> n) ||| (x <<< (32 - n))

/-- Bytes to words, most significant byte first. Fewer than four bytes at the end are left out. -/
def wordsBE : Bytes → List UInt32
  | a :: b :: c :: d :: rest =>
    ((a.toUInt32 <<< 24) ||| (b.toUInt32 <<< 16) ||| (c.toUInt32 <<< 8) ||| d.toUInt32)
      :: wordsBE rest
  | _ => []

/-- Bytes to words, least significant byte first. Fewer than four bytes at the end are left out. -/
def wordsLE : Bytes → List UInt32
  | a :: b :: c :: d :: rest =>
    ((d.toUInt32 <<< 24) ||| (c.toUInt32 <<< 16) ||| (b.toUInt32 <<< 8) ||| a.toUInt32)
      :: wordsLE rest
  | _ => []

def wordBytesBE (w : UInt32) : Bytes :=
  [(w >>> 24).toUInt8, (w >>> 16).toUInt8, (w >>> 8).toUInt8, w.toUInt8]

def wordBytesLE (w : UInt32) : Bytes :=
  [w.toUInt8, (w >>> 8).toUInt8, (w >>> 16).toUInt8, (w >>> 24).toUInt8]

@[simp] theorem length_wordBytesBE (w : UInt32) : (wordBytesBE w).length = 4 := rfl
@[simp] theorem length_wordBytesLE (w : UInt32) : (wordBytesLE w).length = 4 := rfl

/-- The message, a one bit, zeros up to eight bytes before a block's end, and the eight bytes
of the length. -/
def pad (message lengthBytes : Bytes) : Bytes :=
  message ++ 0x80 :: List.replicate ((119 - message.length % 64) % 64) 0 ++ lengthBytes

/-- Number of blocks a padded message of this length has. -/
def blockCount (length : Nat) : Nat :=
  (length + 8) / 64 + 1

/-- Feeds `n` blocks of sixteen words to a compression function. -/
def absorb {σ : Type} (compress : σ → List UInt32 → σ) : (n : Nat) → σ → List UInt32 → σ
  | 0, s, _ => s
  | n + 1, s, ws => absorb compress n (compress s (ws.take 16)) (ws.drop 16)

/-- The first `n` words of a recurrence over a window of sixteen words. -/
def expand (next : List UInt32 → UInt32) : (n : Nat) → (window : List UInt32) → List UInt32
  | 0, _ => []
  | n + 1, window => window.headD 0 :: expand next n (window.tail ++ [next window])

end CoinScript.Digest
