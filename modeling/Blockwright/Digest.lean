import Blockwright.Text.Utf8
/-!
# Digests

Short values that stand for longer texts: a hash to spread texts over a table, a digest that identifies
bytes, and a digest that only the holder of a key can make.
-/

/-!
## A small hash

The FNV-1a hash of 32 bits, which spreads short texts over a table.
-/

namespace Blockwright.Digest

/-- The hash of bytes. -/
def fnv1a (bytes : Bytes) : UInt32 :=
  bytes.foldl (fun h b => (h ^^^ b.toUInt32) * 16777619) 2166136261

end Blockwright.Digest

/-!
## The SHA-256 digest

Bytes are padded to blocks of sixteen words, and each block is mixed into eight working words.
-/

namespace Blockwright.Digest

/-- The eight words that a digest is made of. -/
structure Working where
  a : UInt32
  b : UInt32
  c : UInt32
  d : UInt32
  e : UInt32
  f : UInt32
  g : UInt32
  h : UInt32
deriving DecidableEq, Repr

/-- The words that the first block is mixed into. -/
def initial : Working :=
  ⟨0x6a09e667, 0xbb67ae85, 0x3c6ef372, 0xa54ff53a, 0x510e527f, 0x9b05688c, 0x1f83d9ab, 0x5be0cd19⟩

/-- One constant for each of the sixty-four rounds. -/
def roundConstants : List UInt32 := [
  0x428a2f98, 0x71374491, 0xb5c0fbcf, 0xe9b5dba5, 0x3956c25b, 0x59f111f1, 0x923f82a4, 0xab1c5ed5,
  0xd807aa98, 0x12835b01, 0x243185be, 0x550c7dc3, 0x72be5d74, 0x80deb1fe, 0x9bdc06a7, 0xc19bf174,
  0xe49b69c1, 0xefbe4786, 0x0fc19dc6, 0x240ca1cc, 0x2de92c6f, 0x4a7484aa, 0x5cb0a9dc, 0x76f988da,
  0x983e5152, 0xa831c66d, 0xb00327c8, 0xbf597fc7, 0xc6e00bf3, 0xd5a79147, 0x06ca6351, 0x14292967,
  0x27b70a85, 0x2e1b2138, 0x4d2c6dfc, 0x53380d13, 0x650a7354, 0x766a0abb, 0x81c2c92e, 0x92722c85,
  0xa2bfe8a1, 0xa81a664b, 0xc24b8b70, 0xc76c51a3, 0xd192e819, 0xd6990624, 0xf40e3585, 0x106aa070,
  0x19a4c116, 0x1e376c08, 0x2748774c, 0x34b0bcb5, 0x391c0cb3, 0x4ed8aa4a, 0x5b9cca4f, 0x682e6ff3,
  0x748f82ee, 0x78a5636f, 0x84c87814, 0x8cc70208, 0x90befffa, 0xa4506ceb, 0xbef9a3f7, 0xc67178f2]

/-- The bits of a word turned right. -/
def rotate (x n : UInt32) : UInt32 := (x >>> n) ||| (x <<< (32 - n))

/-- Mixes a word from fifteen rounds ago into the schedule. -/
def smallSigma0 (x : UInt32) : UInt32 := rotate x 7 ^^^ rotate x 18 ^^^ (x >>> 3)

/-- Mixes a word from two rounds ago into the schedule. -/
def smallSigma1 (x : UInt32) : UInt32 := rotate x 17 ^^^ rotate x 19 ^^^ (x >>> 10)

/-- One round with a constant and a word of the schedule. -/
def round (v : Working) (k w : UInt32) : Working :=
  let s1 := rotate v.e 6 ^^^ rotate v.e 11 ^^^ rotate v.e 25
  let choice := (v.e &&& v.f) ^^^ (~~~v.e &&& v.g)
  let t1 := v.h + s1 + choice + k + w
  let s0 := rotate v.a 2 ^^^ rotate v.a 13 ^^^ rotate v.a 22
  let majority := (v.a &&& v.b) ^^^ (v.a &&& v.c) ^^^ (v.b &&& v.c)
  ⟨t1 + (s0 + majority), v.a, v.b, v.c, v.d + t1, v.e, v.f, v.g⟩

/-- The word that follows sixteen words of the schedule. -/
def nextWord (window : List UInt32) : UInt32 :=
  smallSigma1 (window.getD 14 0) + window.getD 9 0 + smallSigma0 (window.getD 1 0)
    + window.getD 0 0

/-- The rounds of the given constants; the window holds the next sixteen words. -/
def rounds : List UInt32 → List UInt32 → Working → Working
  | [], _, v => v
  | k :: ks, window, v => rounds ks (window.tail ++ [nextWord window]) (round v k (window.headD 0))

/-- The words of bytes, four bytes each, most significant first. -/
def wordsOf : Bytes → List UInt32
  | a :: b :: c :: d :: rest =>
    ((a.toUInt32 <<< 24) ||| (b.toUInt32 <<< 16) ||| (c.toUInt32 <<< 8) ||| d.toUInt32)
      :: wordsOf rest
  | _ => []

/-- The bytes of a word, most significant first. -/
def bytesOfWord (w : UInt32) : Bytes :=
  [(w >>> 24).toUInt8, (w >>> 16).toUInt8, (w >>> 8).toUInt8, w.toUInt8]

/-- Mixes a block of sixty-four bytes into the words. -/
def mixBlock (v : Working) (block : Bytes) : Working :=
  let r := rounds roundConstants (wordsOf block) v
  ⟨v.a + r.a, v.b + r.b, v.c + r.c, v.d + r.d, v.e + r.e, v.f + r.f, v.g + r.g, v.h + r.h⟩

/-- Mixes a number of blocks into the words. -/
def mixBlocks : Nat → Bytes → Working → Working
  | 0, _, v => v
  | n + 1, bytes, v => mixBlocks n (bytes.drop 64) (mixBlock v (bytes.take 64))

/-- The eight bytes of a number, most significant first. -/
def lengthBytes (n : Nat) : Bytes :=
  [56, 48, 40, 32, 24, 16, 8, 0].map fun shift => UInt8.ofNat (n >>> shift)

/-- The bytes followed by a one bit, zeros, and their count in bits, in whole blocks. -/
def padded (bytes : Bytes) : Bytes :=
  bytes ++ 0x80 :: (List.replicate ((119 - bytes.length % 64) % 64) 0
    ++ lengthBytes (bytes.length * 8))

/-- The thirty-two bytes of the digest. -/
def sha256 (bytes : Bytes) : Bytes :=
  let blocks := padded bytes
  let v := mixBlocks (blocks.length / 64) blocks initial
  [v.a, v.b, v.c, v.d, v.e, v.f, v.g, v.h].flatMap bytesOfWord

end Blockwright.Digest

/-!
## Keyed digests

A digest that only the holder of a key can make: HMAC over SHA-256.
-/

namespace Blockwright.Digest

/-- A key brought to the size of one block. -/
def blockKey (key : Bytes) : Bytes :=
  let short := if key.length ≤ 64 then key else sha256 key
  short ++ List.replicate (64 - short.length) 0

/-- The digest of a message under a key. -/
def hmac (key message : Bytes) : Bytes :=
  let inner := (blockKey key).map (· ^^^ 0x36)
  let outer := (blockKey key).map (· ^^^ 0x5c)
  sha256 (outer ++ sha256 (inner ++ message))

end Blockwright.Digest
