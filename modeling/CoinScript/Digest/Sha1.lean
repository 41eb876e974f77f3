import CoinScript.Digest.Block

/-!
The SHA-1 digest.
-/

namespace CoinScript.Digest.Sha1

structure State where
  a : UInt32
  b : UInt32
  c : UInt32
  d : UInt32
  e : UInt32

def initial : State :=
  ⟨0x67452301, 0xefcdab89, 0x98badcfe, 0x10325476, 0xc3d2e1f0⟩

def next (w : List UInt32) : UInt32 :=
  rotl (w.getD 13 0 ^^^ w.getD 8 0 ^^^ w.getD 2 0 ^^^ w.getD 0 0) 1

def stage (i : Nat) (b c d : UInt32) : UInt32 :=
  match i / 20 with
  | 0 => ((b &&& c) ||| (~~~b &&& d)) + 0x5a827999
  | 1 => (b ^^^ c ^^^ d) + 0x6ed9eba1
  | 2 => ((b &&& c) ||| (b &&& d) ||| (c &&& d)) + 0x8f1bbcdc
  | _ => (b ^^^ c ^^^ d) + 0xca62c1d6

def round (s : State) (wi : UInt32 × Nat) : State :=
  ⟨rotl s.a 5 + stage wi.2 s.b s.c s.d + s.e + wi.1, s.a, rotl s.b 30, s.c, s.d⟩

def compress (s : State) (block : List UInt32) : State :=
  let r := ((expand next 80 block).zip (List.range 80)).foldl round s
  ⟨s.a + r.a, s.b + r.b, s.c + r.c, s.d + r.d, s.e + r.e⟩

def State.bytes (s : State) : Bytes :=
  wordBytesBE s.a ++ wordBytesBE s.b ++ wordBytesBE s.c ++ wordBytesBE s.d ++ wordBytesBE s.e

end Sha1

def sha1 (message : Bytes) : Bytes :=
  let padded := pad message (Bytes.ofNatBE 8 (8 * message.length))
  (absorb Sha1.compress (blockCount message.length) Sha1.initial (wordsBE padded)).bytes

theorem length_sha1 (message : Bytes) : (sha1 message).length = 20 := rfl

end CoinScript.Digest
