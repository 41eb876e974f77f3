import CoinScript.Digest.Block

/-!
The RIPEMD-160 digest: two lines of eighty rounds over the same block, added at the end.
-/

namespace CoinScript.Digest.Ripemd160

structure State where
  a : UInt32
  b : UInt32
  c : UInt32
  d : UInt32
  e : UInt32

def initial : State :=
  ⟨0x67452301, 0xefcdab89, 0x98badcfe, 0x10325476, 0xc3d2e1f0⟩

/-- The five mixing functions, numbered from zero. -/
def mix (i : Nat) (x y z : UInt32) : UInt32 :=
  match i with
  | 0 => x ^^^ y ^^^ z
  | 1 => (x &&& y) ||| (~~~x &&& z)
  | 2 => (x ||| ~~~y) ^^^ z
  | 3 => (x &&& z) ||| (y &&& ~~~z)
  | _ => x ^^^ (y ||| ~~~z)

def leftConstants : List UInt32 := [0, 0x5a827999, 0x6ed9eba1, 0x8f1bbcdc, 0xa953fd4e]

def rightConstants : List UInt32 := [0x50a28be6, 0x5c4dd124, 0x6d703ef3, 0x7a6d76e9, 0]

/-- Which word of the block each round of the left line takes. -/
def leftWords : List Nat :=
  [0, 1, 2, 3, 4, 5, 6, 7, 8, 9, 10, 11, 12, 13, 14, 15,
   7, 4, 13, 1, 10, 6, 15, 3, 12, 0, 9, 5, 2, 14, 11, 8,
   3, 10, 14, 4, 9, 15, 8, 1, 2, 7, 0, 6, 13, 11, 5, 12,
   1, 9, 11, 10, 0, 8, 12, 4, 13, 3, 7, 15, 14, 5, 6, 2,
   4, 0, 5, 9, 7, 12, 2, 10, 14, 1, 3, 8, 11, 6, 15, 13]

def rightWords : List Nat :=
  [5, 14, 7, 0, 9, 2, 11, 4, 13, 6, 15, 8, 1, 10, 3, 12,
   6, 11, 3, 7, 0, 13, 5, 10, 14, 15, 8, 12, 4, 9, 1, 2,
   15, 5, 1, 3, 7, 14, 6, 9, 11, 8, 12, 2, 10, 0, 4, 13,
   8, 6, 4, 1, 3, 11, 15, 0, 5, 12, 2, 13, 9, 7, 10, 14,
   12, 15, 10, 4, 1, 5, 8, 7, 6, 2, 13, 14, 0, 3, 9, 11]

def leftShifts : List UInt32 :=
  [11, 14, 15, 12, 5, 8, 7, 9, 11, 13, 14, 15, 6, 7, 9, 8,
   7, 6, 8, 13, 11, 9, 7, 15, 7, 12, 15, 9, 11, 7, 13, 12,
   11, 13, 6, 7, 14, 9, 13, 15, 14, 8, 13, 6, 5, 12, 7, 5,
   11, 12, 14, 15, 14, 15, 9, 8, 9, 14, 5, 6, 8, 6, 5, 12,
   9, 15, 5, 11, 6, 8, 13, 12, 5, 12, 13, 14, 11, 8, 5, 6]

def rightShifts : List UInt32 :=
  [8, 9, 9, 11, 13, 15, 15, 5, 7, 7, 8, 11, 14, 14, 12, 6,
   9, 13, 15, 7, 12, 8, 9, 11, 7, 7, 12, 7, 6, 15, 13, 11,
   9, 7, 15, 11, 8, 6, 6, 14, 12, 13, 5, 14, 13, 13, 7, 5,
   15, 5, 8, 11, 14, 14, 6, 14, 6, 9, 12, 9, 12, 5, 15, 8,
   8, 5, 12, 9, 12, 5, 14, 6, 8, 13, 6, 5, 15, 13, 11, 11]

/-- One round: the mixing function, the word with its constant, and the rotation. -/
def round (s : State) (f : Nat) (x shift : UInt32) : State :=
  let t := rotl (s.a + mix f s.b s.c s.d + x) shift + s.e
  ⟨s.e, t, s.b, rotl s.c 10, s.d⟩

/-- A line of eighty rounds; `f` picks the mixing function for each sixteen rounds. -/
def line (f : Nat → Nat) (constants : List UInt32) (words : List Nat) (shifts : List UInt32)
    (block : List UInt32) (s : State) : State :=
  ((words.zip shifts).zip (List.range 80)).foldl
    (fun s r => round s (f (r.2 / 16)) (block.getD r.1.1 0 + constants.getD (r.2 / 16) 0) r.1.2) s

def compress (s : State) (block : List UInt32) : State :=
  let l := line (fun i => i) leftConstants leftWords leftShifts block s
  let r := line (fun i => 4 - i) rightConstants rightWords rightShifts block s
  ⟨s.b + l.c + r.d, s.c + l.d + r.e, s.d + l.e + r.a, s.e + l.a + r.b, s.a + l.b + r.c⟩

def State.bytes (s : State) : Bytes :=
  wordBytesLE s.a ++ wordBytesLE s.b ++ wordBytesLE s.c ++ wordBytesLE s.d ++ wordBytesLE s.e

end Ripemd160

def ripemd160 (message : Bytes) : Bytes :=
  let padded := pad message (Bytes.ofNatLE 8 (8 * message.length))
  (absorb Ripemd160.compress (blockCount message.length) Ripemd160.initial (wordsLE padded)).bytes

theorem length_ripemd160 (message : Bytes) : (ripemd160 message).length = 20 := rfl

end CoinScript.Digest
