/-!
The SHA-256 digest of a byte sequence: padding to blocks of sixteen words, the message schedule of sixty-four words, and
sixty-four rounds for each block. Words are `UInt32`, whose arithmetic is that of the standard.
-/

namespace FileCensus.Digest

def roundConstants : List UInt32 :=
    [0x428a2f98, 0x71374491, 0xb5c0fbcf, 0xe9b5dba5, 0x3956c25b, 0x59f111f1, 0x923f82a4, 0xab1c5ed5,
      0xd807aa98, 0x12835b01, 0x243185be, 0x550c7dc3, 0x72be5d74, 0x80deb1fe, 0x9bdc06a7, 0xc19bf174,
      0xe49b69c1, 0xefbe4786, 0x0fc19dc6, 0x240ca1cc, 0x2de92c6f, 0x4a7484aa, 0x5cb0a9dc, 0x76f988da,
      0x983e5152, 0xa831c66d, 0xb00327c8, 0xbf597fc7, 0xc6e00bf3, 0xd5a79147, 0x06ca6351, 0x14292967,
      0x27b70a85, 0x2e1b2138, 0x4d2c6dfc, 0x53380d13, 0x650a7354, 0x766a0abb, 0x81c2c92e, 0x92722c85,
      0xa2bfe8a1, 0xa81a664b, 0xc24b8b70, 0xc76c51a3, 0xd192e819, 0xd6990624, 0xf40e3585, 0x106aa070,
      0x19a4c116, 0x1e376c08, 0x2748774c, 0x34b0bcb5, 0x391c0cb3, 0x4ed8aa4a, 0x5b9cca4f, 0x682e6ff3,
      0x748f82ee, 0x78a5636f, 0x84c87814, 0x8cc70208, 0x90befffa, 0xa4506ceb, 0xbef9a3f7, 0xc67178f2]

/-- The eight working words. -/
structure Chain where
  a : UInt32
  b : UInt32
  c : UInt32
  d : UInt32
  e : UInt32
  f : UInt32
  g : UInt32
  h : UInt32

def Chain.start : Chain :=
    ⟨0x6a09e667, 0xbb67ae85, 0x3c6ef372, 0xa54ff53a, 0x510e527f, 0x9b05688c, 0x1f83d9ab, 0x5be0cd19⟩

def Chain.add (x y : Chain) : Chain :=
    ⟨x.a + y.a, x.b + y.b, x.c + y.c, x.d + y.d, x.e + y.e, x.f + y.f, x.g + y.g, x.h + y.h⟩

def Chain.words (x : Chain) : List UInt32 :=
    [x.a, x.b, x.c, x.d, x.e, x.f, x.g, x.h]

def rotateRight (x : UInt32) (n : UInt32) : UInt32 :=
    (x >>> n) ||| (x <<< (32 - n))

/-- The message, a one bit, zeros, and the length in bits as eight bytes: a whole number of blocks of 64 bytes. -/
def pad (message : List UInt8) : List UInt8 :=
    let bits := 8 * message.length
    let zeros := (119 - message.length % 64) % 64
    let size := (List.range 8).map fun k => UInt8.ofNat (bits / Nat.pow 2 (8 * (7 - k)) % 256)
    message ++ 0x80 :: (List.replicate zeros 0 ++ size)

/-- Big-endian words. -/
def toWords : List UInt8 → List UInt32
  | w :: x :: y :: z :: rest =>
      ((w.toUInt32 <<< 24) ||| (x.toUInt32 <<< 16) ||| (y.toUInt32 <<< 8) ||| z.toUInt32) :: toWords rest
  | _ => []

/-- One further word of the schedule; `recent` holds the sixteen words before it, the latest last. -/
def nextWord (recent : List UInt32) : UInt32 :=
    let word (k : Nat) : UInt32 := recent.getD k 0
    let x := word 1
    let y := word 14
    let s0 := rotateRight x 7 ^^^ rotateRight x 18 ^^^ (x >>> 3)
    let s1 := rotateRight y 17 ^^^ rotateRight y 19 ^^^ (y >>> 10)
    word 0 + s0 + word 9 + s1

/-- `count` words of the schedule, beginning with the first of `recent`. -/
def schedule : (count : Nat) → (recent : List UInt32) → List UInt32
  | 0, _ => []
  | count + 1, recent => recent.headD 0 :: schedule count (recent.tail ++ [nextWord recent])

def Chain.round (s : Chain) (k w : UInt32) : Chain :=
    let s1 := rotateRight s.e 6 ^^^ rotateRight s.e 11 ^^^ rotateRight s.e 25
    let choice := (s.e &&& s.f) ^^^ ((~~~ s.e) &&& s.g)
    let t1 := s.h + s1 + choice + k + w
    let s0 := rotateRight s.a 2 ^^^ rotateRight s.a 13 ^^^ rotateRight s.a 22
    let majority := (s.a &&& s.b) ^^^ (s.a &&& s.c) ^^^ (s.b &&& s.c)
    ⟨t1 + s0 + majority, s.a, s.b, s.c, s.d + t1, s.e, s.f, s.g⟩

def Chain.absorb (s : Chain) (block : List UInt32) : Chain :=
    s.add ((roundConstants.zip (schedule 64 block)).foldl (fun t kw => t.round kw.1 kw.2) s)

/-- `count` blocks of sixteen words. -/
def Chain.absorbAll : (count : Nat) → Chain → List UInt32 → Chain
  | 0, s, _ => s
  | count + 1, s, words => absorbAll count (s.absorb (words.take 16)) (words.drop 16)

def sha256 (message : List UInt8) : List UInt32 :=
    let words := toWords (pad message)
    (Chain.start.absorbAll (words.length / 16) words).words

def hexWord (w : UInt32) : List Char :=
    (List.range 8).map fun k =>
      let n := w.toNat / Nat.pow 16 (7 - k) % 16
      if n < 10 then Char.ofNat (48 + n) else Char.ofNat (87 + n)

/-- The digest of a text's UTF-8 bytes in lower-case hexadecimal. -/
def sha256Text (s : String) : String :=
    String.ofList ((sha256 s.toUTF8.toList).flatMap hexWord)

end FileCensus.Digest
