/-!
The digest SHA-256: the message is padded to whole blocks, and each block is mixed into eight
words in 64 rounds.
-/

namespace Notebook.Digest

namespace Sha256

/-- The first 32 bits of the fractional parts of the cube roots of the first 64 primes. -/
def roundConstants : List UInt32 :=
  [0x428a2f98, 0x71374491, 0xb5c0fbcf, 0xe9b5dba5, 0x3956c25b, 0x59f111f1,
   0x923f82a4, 0xab1c5ed5, 0xd807aa98, 0x12835b01, 0x243185be, 0x550c7dc3,
   0x72be5d74, 0x80deb1fe, 0x9bdc06a7, 0xc19bf174, 0xe49b69c1, 0xefbe4786,
   0x0fc19dc6, 0x240ca1cc, 0x2de92c6f, 0x4a7484aa, 0x5cb0a9dc, 0x76f988da,
   0x983e5152, 0xa831c66d, 0xb00327c8, 0xbf597fc7, 0xc6e00bf3, 0xd5a79147,
   0x06ca6351, 0x14292967, 0x27b70a85, 0x2e1b2138, 0x4d2c6dfc, 0x53380d13,
   0x650a7354, 0x766a0abb, 0x81c2c92e, 0x92722c85, 0xa2bfe8a1, 0xa81a664b,
   0xc24b8b70, 0xc76c51a3, 0xd192e819, 0xd6990624, 0xf40e3585, 0x106aa070,
   0x19a4c116, 0x1e376c08, 0x2748774c, 0x34b0bcb5, 0x391c0cb3, 0x4ed8aa4a,
   0x5b9cca4f, 0x682e6ff3, 0x748f82ee, 0x78a5636f, 0x84c87814, 0x8cc70208,
   0x90befffa, 0xa4506ceb, 0xbef9a3f7, 0xc67178f2]

structure State where
  a : UInt32
  b : UInt32
  c : UInt32
  d : UInt32
  e : UInt32
  f : UInt32
  g : UInt32
  h : UInt32
  deriving DecidableEq, Repr

namespace State

/-- The first 32 bits of the fractional parts of the square roots of the first eight primes. -/
def initial : State :=
  ⟨0x6a09e667, 0xbb67ae85, 0x3c6ef372, 0xa54ff53a, 0x510e527f, 0x9b05688c,
   0x1f83d9ab, 0x5be0cd19⟩

def add (s t : State) : State :=
  ⟨s.a + t.a, s.b + t.b, s.c + t.c, s.d + t.d, s.e + t.e, s.f + t.f, s.g + t.g, s.h + t.h⟩

def words (s : State) : List UInt32 := [s.a, s.b, s.c, s.d, s.e, s.f, s.g, s.h]

end State

def rotateRight (w : UInt32) (n : UInt32) : UInt32 := (w >>> n) ||| (w <<< (32 - n))

def sigma0 (w : UInt32) : UInt32 := rotateRight w 7 ^^^ rotateRight w 18 ^^^ (w >>> 3)

def sigma1 (w : UInt32) : UInt32 := rotateRight w 17 ^^^ rotateRight w 19 ^^^ (w >>> 10)

def sum0 (w : UInt32) : UInt32 := rotateRight w 2 ^^^ rotateRight w 13 ^^^ rotateRight w 22

def sum1 (w : UInt32) : UInt32 := rotateRight w 6 ^^^ rotateRight w 11 ^^^ rotateRight w 25

def choose (e f g : UInt32) : UInt32 := (e &&& f) ^^^ (~~~e &&& g)

def majority (a b c : UInt32) : UInt32 := (a &&& b) ^^^ (a &&& c) ^^^ (b &&& c)

/-- The next `n` words of the schedule after the sixteen in the window. -/
def extend : Nat → List UInt32 → List UInt32
  | 0, window => window
  | n + 1, w0 :: window =>
    let w := sigma1 (window.getD 13 0) + window.getD 8 0 + sigma0 (window.getD 0 0) + w0
    w0 :: extend n (window ++ [w])
  | _ + 1, [] => []

def round (s : State) (k w : UInt32) : State :=
  let t1 := s.h + sum1 s.e + choose s.e s.f s.g + k + w
  let t2 := sum0 s.a + majority s.a s.b s.c
  ⟨t1 + t2, s.a, s.b, s.c, s.d + t1, s.e, s.f, s.g⟩

/-- Mixes a block of sixteen words into the state. -/
def mix (s : State) (block : List UInt32) : State :=
  s.add ((roundConstants.zip (extend 48 block)).foldl (fun s (k, w) => round s k w) s)

def wordBytes (w : UInt32) : List UInt8 :=
  [(w >>> 24).toUInt8, (w >>> 16).toUInt8, (w >>> 8).toUInt8, w.toUInt8]

/-- Four bytes at a time as words, the highest byte first. -/
def toWords : List UInt8 → List UInt32
  | a :: b :: c :: d :: bs =>
    ((a.toUInt32 <<< 24) ||| (b.toUInt32 <<< 16) ||| (c.toUInt32 <<< 8) ||| d.toUInt32) :: toWords bs
  | _ => []

/-- A one bit, zeros up to a whole block, and the length in bits in the last eight bytes. -/
def padding (length : Nat) : List UInt8 :=
  let bits := UInt64.ofNat (8 * length)
  0x80 :: List.replicate ((119 - length % 64) % 64) (0 : UInt8) ++
    wordBytes (bits >>> 32).toUInt32 ++ wordBytes bits.toUInt32

def mixAll (s : State) (ws : List UInt32) : State :=
  match ws with
  | [] => s
  | w :: ws => mixAll (mix s ((w :: ws).take 16)) (ws.drop 15)
termination_by ws.length
decreasing_by simp only [List.length_drop, List.length_cons]; omega

end Sha256

/-- The digest of a message, as 32 bytes. -/
def sha256 (message : List UInt8) : List UInt8 :=
  (Sha256.mixAll .initial
    (Sha256.toWords (message ++ Sha256.padding message.length))).words.flatMap Sha256.wordBytes

theorem length_sha256 (message : List UInt8) : (sha256 message).length = 32 := rfl

/-- A number below sixteen as a digit. -/
def hexDigit (n : Nat) : Char := Char.ofNat (if n < 10 then '0'.toNat + n else 'a'.toNat + (n - 10))

/-- Bytes as two lowercase digits each. -/
def hex (bytes : List UInt8) : List Char :=
  bytes.flatMap fun b => [hexDigit (b.toNat / 16), hexDigit (b.toNat % 16)]

theorem length_hex (bytes : List UInt8) : (hex bytes).length = 2 * bytes.length := by
  induction bytes with
  | nil => rfl
  | cons b bs ih =>
    simp only [hex, List.flatMap_cons, List.length_append, List.length_cons, List.length_nil] at ih ⊢
    omega

end Notebook.Digest
