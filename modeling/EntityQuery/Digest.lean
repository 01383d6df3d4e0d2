/-!
The 160-bit Secure Hash Algorithm on bytes, written as forty hexadecimal digits.
-/
namespace EntityQuery.Digest

/-- The five words of a running digest. -/
structure State where
  a : UInt32
  b : UInt32
  c : UInt32
  d : UInt32
  e : UInt32
  deriving DecidableEq, Repr

def initial : State := ⟨0x67452301, 0xefcdab89, 0x98badcfe, 0x10325476, 0xc3d2e1f0⟩

def rotate (n x : UInt32) : UInt32 := (x <<< n) ||| (x >>> (32 - n))

/-- The big-endian bytes of a natural below `256 ^ count`. -/
def bigEndian : Nat → Nat → List UInt8
  | 0, _ => []
  | count + 1, n => bigEndian count (n / 256) ++ [UInt8.ofNat n]

/-- A message followed by a one bit, zeros and its length in bits, a multiple of 64 bytes. -/
def pad (message : List UInt8) : List UInt8 :=
  let zeros := (119 - message.length % 64) % 64
  message ++ 0x80 :: List.replicate zeros 0 ++ bigEndian 8 (8 * message.length)

/-- Four bytes as one word. -/
def word (bytes : List UInt8) : UInt32 := bytes.foldl (fun w b => (w <<< 8) ||| b.toUInt32) 0

/-- Consecutive pieces of `size` elements. -/
def pieces {α : Type} (size : Nat) (fuel : Nat) (xs : List α) : List (List α) :=
  match fuel, xs with
  | 0, _ => []
  | _, [] => []
  | fuel + 1, xs => xs.take size :: pieces size fuel (xs.drop size)

/-- The word that follows in a schedule, kept from the last word to the first. -/
def nextWord (schedule : Array UInt32) : UInt32 :=
  let n := schedule.size
  rotate 1 (schedule.getD (n - 3) 0 ^^^ schedule.getD (n - 8) 0 ^^^ schedule.getD (n - 14) 0 ^^^
    schedule.getD (n - 16) 0)

/-- The eighty words of a block. -/
def schedule (block : List UInt8) : Array UInt32 :=
  let words := ((pieces 4 16 block).map word).toArray
  (List.range 64).foldl (fun ws _ => ws.push (nextWord ws)) words

/-- The mixing function and the constant of a round. -/
def roundFunction (round : Nat) (b c d : UInt32) : UInt32 × UInt32 :=
  if round < 20 then ((b &&& c) ||| (~~~b &&& d), 0x5a827999)
  else if round < 40 then (b ^^^ c ^^^ d, 0x6ed9eba1)
  else if round < 60 then ((b &&& c) ||| (b &&& d) ||| (c &&& d), 0x8f1bbcdc)
  else (b ^^^ c ^^^ d, 0xca62c1d6)

def step (words : Array UInt32) (s : State) (round : Nat) : State :=
  let (f, k) := roundFunction round s.b s.c s.d
  ⟨rotate 5 s.a + f + s.e + k + words.getD round 0, s.a, rotate 30 s.b, s.c, s.d⟩

def absorb (s : State) (block : List UInt8) : State :=
  let words := schedule block
  let t := (List.range 80).foldl (step words) s
  ⟨s.a + t.a, s.b + t.b, s.c + t.c, s.d + t.d, s.e + t.e⟩

def hexByte (b : UInt8) : List Char := [Nat.digitChar (b.toNat / 16), Nat.digitChar (b.toNat % 16)]

/-- The digest of bytes in hexadecimal. -/
def hex (message : List UInt8) : String :=
  let padded := pad message
  let s := (pieces 64 padded.length padded).foldl absorb initial
  String.ofList ([s.a, s.b, s.c, s.d, s.e].flatMap fun w => (bigEndian 4 w.toNat).flatMap hexByte)

/-- The digest of the UTF-8 bytes of a text. -/
def ofText (s : String) : String := hex s.toUTF8.toList

end EntityQuery.Digest
