/-!
# The 64-bit digest of a byte string

Symbols are identified by a 64-bit digest of their names.  The digest is XXH64 with seed 0: four
accumulators take in the text 32 bytes at a time, what is left over is folded in word by word and then byte
by byte, and a final mixing spreads every bit.

Words are read with their least significant byte first.
-/

namespace DeferredInit.Digest

/-- First multiplier. -/
def prime1 : UInt64 := 0x9E3779B185EBCA87

/-- Second multiplier. -/
def prime2 : UInt64 := 0xC2B2AE3D27D4EB4F

/-- Third multiplier. -/
def prime3 : UInt64 := 0x165667B19E3779F9

/-- Fourth multiplier. -/
def prime4 : UInt64 := 0x85EBCA77C2B2AE63

/-- Fifth multiplier. -/
def prime5 : UInt64 := 0x27D4EB2F165667C5

/-- `x` with its bits moved up by `n` places, those that leave at the top coming in at the bottom. -/
def rotateLeft (x n : UInt64) : UInt64 := (x <<< n) ||| (x >>> (64 - n))

/-- The number whose base-256 digits are `bytes`, least significant first. -/
def littleEndian (bytes : List UInt8) : UInt64 :=
  bytes.foldr (fun b rest => rest <<< 8 ||| b.toUInt64) 0

/-- The 64-bit words of a byte string, and the bytes (fewer than eight) that fill no word. -/
def words : List UInt8 → List UInt64 × List UInt8
  | a :: b :: c :: d :: e :: f :: g :: h :: rest =>
    let (ws, tail) := words rest
    (littleEndian [a, b, c, d, e, f, g, h] :: ws, tail)
  | tail => ([], tail)

/-- One accumulator takes in one word. -/
def round (acc word : UInt64) : UInt64 := rotateLeft (acc + word * prime2) 31 * prime1

/-- The four accumulators. -/
structure Lanes where
  /-- First accumulator. -/
  a : UInt64
  /-- Second accumulator. -/
  b : UInt64
  /-- Third accumulator. -/
  c : UInt64
  /-- Fourth accumulator. -/
  d : UInt64

/-- The accumulators before the first word. -/
def Lanes.start : Lanes := ⟨prime1 + prime2, prime2, 0, 0 - prime1⟩

/-- Takes in words four at a time and returns what fills no group of four. -/
def Lanes.absorb (l : Lanes) : List UInt64 → Lanes × List UInt64
  | w :: x :: y :: z :: rest => Lanes.absorb ⟨round l.a w, round l.b x, round l.c y, round l.d z⟩ rest
  | rest => (l, rest)

/-- Joins the four accumulators into one. -/
def Lanes.merge (l : Lanes) : UInt64 :=
  let sum := rotateLeft l.a 1 + rotateLeft l.b 7 + rotateLeft l.c 12 + rotateLeft l.d 18
  [l.a, l.b, l.c, l.d].foldl (fun acc x => (acc ^^^ round 0 x) * prime1 + prime4) sum

/-- Folds one left-over word into the digest. -/
def foldWord (acc word : UInt64) : UInt64 :=
  rotateLeft (acc ^^^ round 0 word) 27 * prime1 + prime4

/-- Folds one left-over byte into the digest. -/
def foldByte (acc : UInt64) (byte : UInt8) : UInt64 :=
  rotateLeft (acc ^^^ byte.toUInt64 * prime5) 11 * prime1

/-- Folds the bytes that fill no word into the digest, the first four of them as one half word. -/
def foldTail (acc : UInt64) : List UInt8 → UInt64
  | a :: b :: c :: d :: rest =>
    rest.foldl foldByte (rotateLeft (acc ^^^ littleEndian [a, b, c, d] * prime1) 23 * prime2 + prime3)
  | rest => rest.foldl foldByte acc

/-- Spreads every bit of the digest over all of it. -/
def avalanche (acc : UInt64) : UInt64 :=
  let acc := (acc ^^^ acc >>> 33) * prime2
  let acc := (acc ^^^ acc >>> 29) * prime3
  acc ^^^ acc >>> 32

/-- **The digest of a byte string.** -/
def ofBytes (bytes : List UInt8) : UInt64 :=
  let (ws, tail) := words bytes
  let (lanes, left) := Lanes.start.absorb ws
  let start := if ws.length < 4 then prime5 else lanes.merge
  let acc := left.foldl foldWord (start + bytes.length.toUInt64)
  avalanche (foldTail acc tail)

/-- The digest of a text, taken over its UTF-8 bytes. -/
def ofString (s : String) : UInt64 := ofBytes s.toByteArray.data.toList

end DeferredInit.Digest
