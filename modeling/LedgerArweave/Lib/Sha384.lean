import LedgerArweave.Lib.BigEndian
import LedgerArweave.Lib.Iterated
import LedgerArweave.Lib.Roots

/-!
# SHA-384

The hash function as FIPS 180 defines it, for messages of whole bytes. Its constants are what the standard says they are, the
first 64 bits of the fractional parts of roots of the first primes, so that nothing here is a table; nothing here is meant to be
run.
-/

namespace Lib

namespace Sha384

/-! ## Functions on words -/

abbrev Word : Type := UInt64

/-- The word that eight bytes stand for. -/
def wordOf (l : List UInt8) : Word := UInt64.ofNat (ofBe l)

/-- The eight bytes of a word. -/
def bytesOf (w : Word) : List UInt8 := toBe 8 w.toNat

def rotr (n : Word) (x : Word) : Word := x >>> n ||| x <<< (64 - n)

def ch (x y z : Word) : Word := x &&& y ^^^ ~~~x &&& z
def maj (x y z : Word) : Word := x &&& y ^^^ x &&& z ^^^ y &&& z

def bigSigma0 (x : Word) : Word := rotr 28 x ^^^ rotr 34 x ^^^ rotr 39 x
def bigSigma1 (x : Word) : Word := rotr 14 x ^^^ rotr 18 x ^^^ rotr 41 x
def smallSigma0 (x : Word) : Word := rotr 1 x ^^^ rotr 8 x ^^^ x >>> 7
def smallSigma1 (x : Word) : Word := rotr 19 x ^^^ rotr 61 x ^^^ x >>> 6

/-! ## Constants -/

/-- From the cube roots of the first eighty primes. -/
noncomputable def roundConstant (t : Nat) : Word := UInt64.ofNat (rootFraction (2 ^ 64) 3 (Nat.nth Nat.Prime t))

/-- From the square roots of the ninth to sixteenth primes. -/
noncomputable def initialWord (i : Nat) : Word := UInt64.ofNat (rootFraction (2 ^ 64) 2 (Nat.nth Nat.Prime (8 + i)))

/-! ## The computation -/

/-- The eight working variables. -/
structure Vars where
  a : Word
  b : Word
  c : Word
  d : Word
  e : Word
  f : Word
  g : Word
  h : Word
  deriving DecidableEq, Repr

/-- Their sums, word by word. -/
def Vars.add (v w : Vars) : Vars := ⟨v.a + w.a, v.b + w.b, v.c + w.c, v.d + w.d, v.e + w.e, v.f + w.f, v.g + w.g, v.h + w.h⟩

def Vars.words (v : Vars) : List Word := [v.a, v.b, v.c, v.d, v.e, v.f, v.g, v.h]

/-- The message schedule of a block. -/
def schedule (block : Nat → Word) (t : Nat) : Word :=
  if t < 16 then block t
  else smallSigma1 (schedule block (t - 2)) + schedule block (t - 7) + smallSigma0 (schedule block (t - 15)) +
    schedule block (t - 16)
termination_by t

/-- One round. -/
def round (k w : Word) (v : Vars) : Vars :=
  let t1 := v.h + bigSigma1 v.e + ch v.e v.f v.g + k + w
  let t2 := bigSigma0 v.a + maj v.a v.b v.c
  ⟨t1 + t2, v.a, v.b, v.c, v.d + t1, v.e, v.f, v.g⟩

/-- The sixteen words of a block of 128 bytes. -/
def blockWord (l : List UInt8) (t : Nat) : Word := wordOf ((l.drop (8 * t)).take 8)

/-- The hash value after one block more. -/
noncomputable def compress (v : Vars) (l : List UInt8) : Vars :=
  v.add ((List.range 80).foldl (fun v t => round (roundConstant t) (schedule (blockWord l) t) v) v)

noncomputable def initial : Vars :=
  ⟨initialWord 0, initialWord 1, initialWord 2, initialWord 3, initialWord 4, initialWord 5, initialWord 6, initialWord 7⟩

/-- A one bit, as few zero bits as lead to a full block, and the length of the message in bits. -/
def padding (len : Nat) : List UInt8 :=
  0x80 :: List.replicate ((239 - len % 128) % 128) 0 ++ toBe 16 (8 * len)

/-- The hash value of a message. -/
noncomputable def value (message : List UInt8) : Vars :=
  absorb 128 compress initial (message ++ padding message.length)

/-- The digest: the first six words of the hash value. -/
noncomputable def digest (message : List UInt8) : List UInt8 := ((value message).words.take 6).flatMap bytesOf

/-! ## Lengths -/

theorem length_bytesOf (w : Word) : (bytesOf w).length = 8 := length_toBe _ _

theorem length_digest (message : List UInt8) : (digest message).length = 48 := by
  simp [digest, Vars.words, length_bytesOf]

end Sha384

end Lib
