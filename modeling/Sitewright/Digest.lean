import Sitewright.Text.Basic

/-!
The SHA-1 digest of a text's UTF-8 bytes, in lower case hexadecimal.
-/
namespace Sitewright.Digest

/-- The five words of the running digest. -/
structure State where
  a : UInt32
  b : UInt32
  c : UInt32
  d : UInt32
  e : UInt32

/-- The digest before any input. -/
def State.initial : State := ⟨0x67452301, 0xEFCDAB89, 0x98BADCFE, 0x10325476, 0xC3D2E1F0⟩

def rotate (w : UInt32) (bits : UInt32) : UInt32 := (w <<< bits) ||| (w >>> (32 - bits))

/-- The UTF-8 bytes of a text. -/
def utf8 (t : Text) : List UInt8 := t.flatMap String.utf8EncodeChar

/-- The bytes of a number, most significant first, in a field of the given width. -/
def bigEndian (n : Nat) : Nat → List UInt8
  | 0 => []
  | width + 1 => UInt8.ofNat (n / Nat.pow 256 width) :: bigEndian n width

/-- Fills the message up to a multiple of 64 bytes that ends with its length in bits. -/
def padded (bytes : List UInt8) : List UInt8 :=
  let zeros := (119 - bytes.length % 64) % 64
  bytes ++ 0x80 :: List.replicate zeros 0 ++ bigEndian (bytes.length * 8) 8

/-- The number whose bytes are given, most significant first. -/
def ofBigEndian (bytes : List UInt8) : UInt32 :=
  bytes.foldl (fun w b => (w <<< 8) ||| b.toUInt32) 0

/-- The 32-bit words of a block, as many as asked for. -/
def blockWords (bytes : List UInt8) : Nat → List UInt32
  | 0 => []
  | n + 1 => ofBigEndian (bytes.take 4) :: blockWords (bytes.drop 4) n

/-- Extends the schedule, kept newest first, by one word at a time. -/
def extend (schedule : List UInt32) : Nat → List UInt32
  | 0 => schedule
  | n + 1 =>
    let w := schedule.getD 2 0 ^^^ schedule.getD 7 0 ^^^ schedule.getD 13 0 ^^^ schedule.getD 15 0
    extend (rotate w 1 :: schedule) n

/-- The mixing function of a round. -/
def mix (round : Nat) (s : State) : UInt32 :=
  if round < 20 then (s.b &&& s.c) ||| (~~~s.b &&& s.d)
  else if round < 40 then s.b ^^^ s.c ^^^ s.d
  else if round < 60 then (s.b &&& s.c) ||| (s.b &&& s.d) ||| (s.c &&& s.d)
  else s.b ^^^ s.c ^^^ s.d

def roundConstant (round : Nat) : UInt32 :=
  if round < 20 then 0x5A827999 else if round < 40 then 0x6ED9EBA1
  else if round < 60 then 0x8F1BBCDC else 0xCA62C1D6

/-- One round with one word of the schedule. -/
def step (s : State) (word : UInt32 × Nat) : State :=
  let (w, round) := word
  let t := rotate s.a 5 + mix round s + s.e + w + roundConstant round
  ⟨t, s.a, rotate s.b 30, s.c, s.d⟩

/-- Takes one block of 64 bytes into the digest. -/
def absorb (s : State) (block : List UInt8) : State :=
  let schedule := (extend (blockWords block 16).reverse 64).reverse
  let r := schedule.zipIdx.foldl step s
  ⟨s.a + r.a, s.b + r.b, s.c + r.c, s.d + r.d, s.e + r.e⟩

/-- Takes the given number of blocks into the digest. -/
def absorbAll (s : State) (bytes : List UInt8) : Nat → State
  | 0 => s
  | n + 1 => absorbAll (absorb s (bytes.take 64)) (bytes.drop 64) n

/-- A lower case hexadecimal digit. -/
def hexDigit (n : Nat) : Char := Char.ofNat (if n < 10 then 48 + n else 87 + n)

/-- The lowest hexadecimal digits of a number, as many as asked for. -/
def hex (n : Nat) : Nat → Text
  | 0 => []
  | width + 1 => hexDigit (n / Nat.pow 16 width % 16) :: hex n width

/-- The digest of a text. -/
def sha1 (t : Text) : Text :=
  let bytes := padded (utf8 t)
  let s := absorbAll .initial bytes (bytes.length / 64)
  [s.a, s.b, s.c, s.d, s.e].flatMap fun w => hex w.toNat 8

end Sitewright.Digest
