/-
  PiRlm.Lib.Sha256

  SHA-256 (FIPS 180-4) on octet strings, with the digest as lower-case hexadecimal.

  Words are natural numbers below `2 ^ 32`; `word` reduces a sum.  The digest is
  computable, so identities derived from it can be evaluated.
-/
import Mathlib
import PiRlm.Lib.JsonText

namespace PiRlm.Lib.Sha256

/-- Reduction of a number to 32 bits. -/
def word (n : Nat) : Nat := n % 2 ^ 32

/-- Rotation of a word to the right. -/
def rotr (n x : Nat) : Nat := (x >>> n) ||| word (x <<< (32 - n))

def bigSigma0 (x : Nat) : Nat := rotr 2 x ^^^ rotr 13 x ^^^ rotr 22 x

def bigSigma1 (x : Nat) : Nat := rotr 6 x ^^^ rotr 11 x ^^^ rotr 25 x

def smallSigma0 (x : Nat) : Nat := rotr 7 x ^^^ rotr 18 x ^^^ (x >>> 3)

def smallSigma1 (x : Nat) : Nat := rotr 17 x ^^^ rotr 19 x ^^^ (x >>> 10)

def choose (x y z : Nat) : Nat := (x &&& y) ^^^ ((x ^^^ 0xFFFFFFFF) &&& z)

def majority (x y z : Nat) : Nat := (x &&& y) ^^^ (x &&& z) ^^^ (y &&& z)

/-- Round constants. -/
def constants : List Nat :=
  [0x428a2f98, 0x71374491, 0xb5c0fbcf, 0xe9b5dba5, 0x3956c25b, 0x59f111f1, 0x923f82a4, 0xab1c5ed5,
    0xd807aa98, 0x12835b01, 0x243185be, 0x550c7dc3, 0x72be5d74, 0x80deb1fe, 0x9bdc06a7, 0xc19bf174,
    0xe49b69c1, 0xefbe4786, 0x0fc19dc6, 0x240ca1cc, 0x2de92c6f, 0x4a7484aa, 0x5cb0a9dc, 0x76f988da,
    0x983e5152, 0xa831c66d, 0xb00327c8, 0xbf597fc7, 0xc6e00bf3, 0xd5a79147, 0x06ca6351, 0x14292967,
    0x27b70a85, 0x2e1b2138, 0x4d2c6dfc, 0x53380d13, 0x650a7354, 0x766a0abb, 0x81c2c92e, 0x92722c85,
    0xa2bfe8a1, 0xa81a664b, 0xc24b8b70, 0xc76c51a3, 0xd192e819, 0xd6990624, 0xf40e3585, 0x106aa070,
    0x19a4c116, 0x1e376c08, 0x2748774c, 0x34b0bcb5, 0x391c0cb3, 0x4ed8aa4a, 0x5b9cca4f, 0x682e6ff3,
    0x748f82ee, 0x78a5636f, 0x84c87814, 0x8cc70208, 0x90befffa, 0xa4506ceb, 0xbef9a3f7, 0xc67178f2]

/-- The eight working variables. -/
structure State where
  a : Nat
  b : Nat
  c : Nat
  d : Nat
  e : Nat
  f : Nat
  g : Nat
  h : Nat
  deriving Repr, DecidableEq

def initial : State where
  a := 0x6a09e667
  b := 0xbb67ae85
  c := 0x3c6ef372
  d := 0xa54ff53a
  e := 0x510e527f
  f := 0x9b05688c
  g := 0x1f83d9ab
  h := 0x5be0cd19

/-- Further words of the message schedule, latest first. -/
def extend : Nat → List Nat → List Nat
  | 0, latest => latest
  | n + 1, latest =>
    extend n (word (smallSigma1 (latest.getD 1 0) + latest.getD 6 0 +
      smallSigma0 (latest.getD 14 0) + latest.getD 15 0) :: latest)

/-- The 64 words of the schedule of a block of 16. -/
def schedule (block : List Nat) : List Nat := (extend 48 block.reverse).reverse

/-- One round, on the sum of its constant and its schedule word. -/
def round (s : State) (kw : Nat) : State :=
  let t1 := s.h + bigSigma1 s.e + choose s.e s.f s.g + kw
  let t2 := bigSigma0 s.a + majority s.a s.b s.c
  { a := word (t1 + t2), b := s.a, c := s.b, d := s.c,
    e := word (s.d + t1), f := s.e, g := s.f, h := s.g }

def compress (s : State) (block : List Nat) : State :=
  let r := (List.zipWith (· + ·) constants (schedule block)).foldl round s
  { a := word (s.a + r.a), b := word (s.b + r.b), c := word (s.c + r.c), d := word (s.d + r.d),
    e := word (s.e + r.e), f := word (s.f + r.f), g := word (s.g + r.g), h := word (s.h + r.h) }

/-- Big-endian octets of a number. -/
def beBytes : Nat → Nat → List Nat
  | 0, _ => []
  | n + 1, x => x / 256 ^ n % 256 :: beBytes n x

/-- The message with its delimiter, zeros and 64-bit length in bits. -/
def pad (message : List Nat) : List Nat :=
  message ++ [0x80] ++ List.replicate ((119 - message.length % 64) % 64) 0 ++
    beBytes 8 (message.length * 8)

/-- Big-endian words of an octet string. -/
def words : List Nat → List Nat
  | a :: b :: c :: d :: rest => (a * 0x1000000 + b * 0x10000 + c * 0x100 + d) :: words rest
  | _ => []

/-- Compression of the first `n` blocks of a word string. -/
def compressBlocks : Nat → List Nat → State → State
  | 0, _, s => s
  | n + 1, ws, s => compressBlocks n (ws.drop 16) (compress s (ws.take 16))

/-- Chaining state after the whole message. -/
def hash (message : List Byte) : State :=
  let padded := pad (message.map Fin.val)
  compressBlocks (padded.length / 64) (words padded) initial

/-- Eight hexadecimal digits of a word. -/
def hexWord (x : Nat) : JsString :=
  [hexDigit (x / 0x10000000 % 0x10), hexDigit (x / 0x1000000 % 0x10),
    hexDigit (x / 0x100000 % 0x10), hexDigit (x / 0x10000 % 0x10),
    hexDigit (x / 0x1000 % 0x10), hexDigit (x / 0x100 % 0x10),
    hexDigit (x / 0x10 % 0x10), hexDigit (x % 0x10)]

/-- The digest as 64 lower-case hexadecimal digits. -/
def hexDigest (message : List Byte) : JsString :=
  let s := hash message
  hexWord s.a ++ hexWord s.b ++ hexWord s.c ++ hexWord s.d ++ hexWord s.e ++ hexWord s.f ++
    hexWord s.g ++ hexWord s.h

/-- Lower-case hexadecimal digit. -/
def isHexUnit (u : CodeUnit) : Bool :=
  decide (0x30 ≤ u.val ∧ u.val ≤ 0x39) || decide (0x61 ≤ u.val ∧ u.val ≤ 0x66)

theorem isHexUnit_hexDigit {n : Nat} (h : n < 0x10) : isHexUnit (hexDigit n) = true := by
  interval_cases n <;> decide

theorem hexWord_all (x : Nat) : (hexWord x).all isHexUnit = true := by
  have hdigit : ∀ n, isHexUnit (hexDigit (n % 0x10)) = true :=
    fun n => isHexUnit_hexDigit (Nat.mod_lt n (by decide))
  simp only [hexWord, List.all_cons, hdigit, List.all_nil, Bool.and_self]

theorem hexDigest_all (message : List Byte) : (hexDigest message).all isHexUnit = true := by
  simp only [hexDigest, List.all_append, hexWord_all, Bool.and_self]

theorem hexDigest_length (message : List Byte) : (hexDigest message).length = 64 := rfl

/-- The digest of `abc`. -/
example : hexDigest [0x61, 0x62, 0x63] =
    js "ba7816bf8f01cfea414140de5dae2223b00361a396177a9cb410ff61f20015ad" := by
  decide +kernel

end PiRlm.Lib.Sha256
