import LedgerArweave.Lib.Bytes

/-!
# The hash function of the host build

`sha512.c`, which the tests and the fuzzer link instead of the hash of the operating system: a message is taken piece by piece, in
a context that counts its bytes and buffers those that do not fill a block yet. A copy that would leave the buffer or its source,
and a block that is read behind the end of its source, is none.
-/

namespace LedgerArweave

namespace Sha512

open Lib

/-! ## Words and bytes -/

/-- `GET_UINT64_BE`. -/
def getUint64Be (b : List UInt8) (i : Nat) : UInt64 :=
  (b.getD i 0).toUInt64 <<< 56 ||| (b.getD (i + 1) 0).toUInt64 <<< 48 ||| (b.getD (i + 2) 0).toUInt64 <<< 40 |||
    (b.getD (i + 3) 0).toUInt64 <<< 32 ||| (b.getD (i + 4) 0).toUInt64 <<< 24 ||| (b.getD (i + 5) 0).toUInt64 <<< 16 |||
    (b.getD (i + 6) 0).toUInt64 <<< 8 ||| (b.getD (i + 7) 0).toUInt64

/-- `PUT_UINT64_BE`: the bytes it stores. -/
def putUint64Be (n : UInt64) : List UInt8 :=
  [(n >>> 56).toUInt8, (n >>> 48).toUInt8, (n >>> 40).toUInt8, (n >>> 32).toUInt8, (n >>> 24).toUInt8, (n >>> 16).toUInt8,
    (n >>> 8).toUInt8, n.toUInt8]

/-! ## The context -/

/-- The eight words of `state`, and the registers `A` to `H`. -/
structure Words where
  a : UInt64
  b : UInt64
  c : UInt64
  d : UInt64
  e : UInt64
  f : UInt64
  g : UInt64
  h : UInt64
  deriving DecidableEq, Repr

/-- `mbedtls_sha512_context`. -/
structure Context where
  total0 : UInt64
  total1 : UInt64
  state : Words
  buffer : ByteArr 128
  deriving DecidableEq, Repr

/-- `mbedtls_sha512_init`. -/
def init : Context := ⟨0, 0, ⟨0, 0, 0, 0, 0, 0, 0, 0⟩, ByteArr.zero 128⟩

/-- `mbedtls_sha512_starts`, with the values of SHA-384. -/
def starts (ctx : Context) : Context :=
  { ctx with
    total0 := 0
    total1 := 0
    state := ⟨0xcbbb9d5dc1059ed8, 0x629a292a367cd507, 0x9159015a3070dd17, 0x152fecd8f70e5939, 0x67332667ffc00b31,
      0x8eb44a8768581511, 0xdb0c2e0d64f98fa7, 0x47b5481dbefa4fa4⟩ }

/-- The round constants. -/
def k : List UInt64 :=
  [0x428A2F98D728AE22, 0x7137449123EF65CD, 0xB5C0FBCFEC4D3B2F, 0xE9B5DBA58189DBBC, 0x3956C25BF348B538,
    0x59F111F1B605D019, 0x923F82A4AF194F9B, 0xAB1C5ED5DA6D8118, 0xD807AA98A3030242, 0x12835B0145706FBE,
    0x243185BE4EE4B28C, 0x550C7DC3D5FFB4E2, 0x72BE5D74F27B896F, 0x80DEB1FE3B1696B1, 0x9BDC06A725C71235,
    0xC19BF174CF692694, 0xE49B69C19EF14AD2, 0xEFBE4786384F25E3, 0x0FC19DC68B8CD5B5, 0x240CA1CC77AC9C65,
    0x2DE92C6F592B0275, 0x4A7484AA6EA6E483, 0x5CB0A9DCBD41FBD4, 0x76F988DA831153B5, 0x983E5152EE66DFAB,
    0xA831C66D2DB43210, 0xB00327C898FB213F, 0xBF597FC7BEEF0EE4, 0xC6E00BF33DA88FC2, 0xD5A79147930AA725,
    0x06CA6351E003826F, 0x142929670A0E6E70, 0x27B70A8546D22FFC, 0x2E1B21385C26C926, 0x4D2C6DFC5AC42AED,
    0x53380D139D95B3DF, 0x650A73548BAF63DE, 0x766A0ABB3C77B2A8, 0x81C2C92E47EDAEE6, 0x92722C851482353B,
    0xA2BFE8A14CF10364, 0xA81A664BBC423001, 0xC24B8B70D0F89791, 0xC76C51A30654BE30, 0xD192E819D6EF5218,
    0xD69906245565A910, 0xF40E35855771202A, 0x106AA07032BBD1B8, 0x19A4C116B8D2D0C8, 0x1E376C085141AB53,
    0x2748774CDF8EEB99, 0x34B0BCB5E19B48A8, 0x391C0CB3C5C95A63, 0x4ED8AA4AE3418ACB, 0x5B9CCA4F7763E373,
    0x682E6FF3D6B2B8A3, 0x748F82EE5DEFB2FC, 0x78A5636F43172F60, 0x84C87814A1F0AB72, 0x8CC702081A6439EC,
    0x90BEFFFA23631E28, 0xA4506CEBDE82BDE9, 0xBEF9A3F7B2C67915, 0xC67178F2E372532B, 0xCA273ECEEA26619C,
    0xD186B8C721C0C207, 0xEADA7DD6CDE0EB1E, 0xF57D4F7FEE6ED178, 0x06F067AA72176FBA, 0x0A637DC5A2C898A6,
    0x113F9804BEF90DAE, 0x1B710B35131C471B, 0x28DB77F523047D84, 0x32CAAB7B40C72493, 0x3C9EBE0A15C9BEBC,
    0x431D67C49C100D4C, 0x4CC5D4BECB3E42B6, 0x597F299CFC657E2A, 0x5FCB6FAB3AD6FAEC, 0x6C44198C4A475817]

/-! ## A block -/

def shr (x n : UInt64) : UInt64 := x >>> n
def rotr (x n : UInt64) : UInt64 := shr x n ||| x <<< (64 - n)

def s0 (x : UInt64) : UInt64 := rotr x 1 ^^^ rotr x 8 ^^^ shr x 7
def s1 (x : UInt64) : UInt64 := rotr x 19 ^^^ rotr x 61 ^^^ shr x 6
def s2 (x : UInt64) : UInt64 := rotr x 28 ^^^ rotr x 34 ^^^ rotr x 39
def s3 (x : UInt64) : UInt64 := rotr x 14 ^^^ rotr x 18 ^^^ rotr x 41

def f0 (x y z : UInt64) : UInt64 := (x &&& y) ||| (z &&& (x ||| y))
def f1 (x y z : UInt64) : UInt64 := z ^^^ (x &&& (y ^^^ z))

/-- The macro `P`: what it leaves in its arguments `d` and `h`. -/
def p (a b c d e f g h x k : UInt64) : UInt64 × UInt64 :=
  let temp1 := h + s3 e + f1 e f g + k + x
  let temp2 := s2 a + f0 a b c
  (d + temp1, temp1 + temp2)

/-- The second loop that fills `W`, from index `i` on. -/
def extendW : (n i : Nat) → List UInt64 → List UInt64
  | 0, _, w => w
  | n + 1, i, w =>
    extendW n (i + 1)
      (w ++ [s1 (w.getD (i - 2) 0) + w.getD (i - 7) 0 + s0 (w.getD (i - 15) 0) + w.getD (i - 16) 0])

/-- The array `W` of a block. -/
def fillW (data : List UInt8) : List UInt64 := extendW 64 16 ((List.range 16).map fun i => getUint64Be data (8 * i))

/-- The body of the `do` loop: eight rounds, of which each leaves the registers where they are and renames them for the next. -/
def eightRounds (w : List UInt64) (r : Words) (i : Nat) : Words :=
  let ⟨a, b, c, d, e, f, g, h⟩ := r
  let (d, h) := p a b c d e f g h (w.getD i 0) (k.getD i 0)
  let (c, g) := p h a b c d e f g (w.getD (i + 1) 0) (k.getD (i + 1) 0)
  let (b, f) := p g h a b c d e f (w.getD (i + 2) 0) (k.getD (i + 2) 0)
  let (a, e) := p f g h a b c d e (w.getD (i + 3) 0) (k.getD (i + 3) 0)
  let (h, d) := p e f g h a b c d (w.getD (i + 4) 0) (k.getD (i + 4) 0)
  let (g, c) := p d e f g h a b c (w.getD (i + 5) 0) (k.getD (i + 5) 0)
  let (f, b) := p c d e f g h a b (w.getD (i + 6) 0) (k.getD (i + 6) 0)
  let (e, a) := p b c d e f g h a (w.getD (i + 7) 0) (k.getD (i + 7) 0)
  ⟨a, b, c, d, e, f, g, h⟩

/-- The `do` loop, which runs ten times. -/
def rounds (w : List UInt64) (r : Words) : Words := (List.range 10).foldl (fun r n => eightRounds w r (8 * n)) r

/-- `mbedtls_sha512_process`. -/
def process (ctx : Context) (data : List UInt8) : Option Context :=
  if data.length < 128 then none
  else
    let s := ctx.state
    let r := rounds (fillW data) s
    some { ctx with
      state := ⟨s.a + r.a, s.b + r.b, s.c + r.c, s.d + r.d, s.e + r.e, s.f + r.f, s.g + r.g, s.h + r.h⟩ }

/-! ## A message -/

/-- `memcpy` of `n` bytes into the buffer, from offset `o` on. -/
def memcpyBuffer (buffer : ByteArr 128) (o : Nat) (src : List UInt8) (n : Nat) : Option (ByteArr 128) :=
  if h : o + n ≤ 128 ∧ n ≤ src.length then
    some ⟨patch buffer.1 o (src.take n), by
      rw [length_patch (by rw [List.length_take_of_le h.2, buffer.2]; exact h.1), buffer.2]⟩
  else none

/-- The `while` loop of `mbedtls_sha512_update`: what it leaves in `ctx`, `input` and `ilen`. -/
def updateBlocks : (fuel : Nat) → Context → List UInt8 → (ilen : Nat) → Option (Context × List UInt8 × Nat)
  | fuel, ctx, input, ilen =>
    if ilen < 128 then some (ctx, input, ilen)
    else
      match fuel with
      | 0 => none
      | fuel + 1 => do
        let ctx ← process ctx input
        updateBlocks fuel ctx (input.drop 128) (ilen - 128)

/-- The end of `mbedtls_sha512_update`: the full blocks of the input, and what is left of it into the buffer. -/
def updateRest (ctx : Context) (input : List UInt8) (ilen left : Nat) : Option Context := do
  let (ctx, input, ilen) ← updateBlocks ilen ctx input ilen
  if ilen > 0 then do
    let buffer ← memcpyBuffer ctx.buffer left input ilen
    pure { ctx with buffer := buffer }
  else pure ctx

/-- `mbedtls_sha512_update`. -/
def update (ctx : Context) (input : List UInt8) (ilen : Nat) : Option Context :=
  if ilen = 0 then some ctx
  else
    let left := (ctx.total0 &&& 0x7F).toNat
    let fill := 128 - left
    let total0 := ctx.total0 + UInt64.ofNat ilen
    let total1 := if total0 < UInt64.ofNat ilen then ctx.total1 + 1 else ctx.total1
    let ctx := { ctx with total0 := total0, total1 := total1 }
    if left ≠ 0 ∧ ilen ≥ fill then do
      let buffer ← memcpyBuffer ctx.buffer left input fill
      let ctx ← process { ctx with buffer := buffer } buffer.1
      updateRest ctx (input.drop fill) (ilen - fill) 0
    else updateRest ctx input ilen left

/-- `sha512_padding`. -/
def sha512Padding : List UInt8 := 0x80 :: List.replicate 127 0

/-- The 64 bytes that `mbedtls_sha512_finish` stores. -/
def stored (s : Words) : ByteArr 64 :=
  ⟨putUint64Be s.a ++ putUint64Be s.b ++ putUint64Be s.c ++ putUint64Be s.d ++ putUint64Be s.e ++ putUint64Be s.f ++
    putUint64Be s.g ++ putUint64Be s.h, rfl⟩

/-- `mbedtls_sha512_finish`. -/
def finish (ctx : Context) : Option (ByteArr 64) := do
  let high := ctx.total0 >>> 61 ||| ctx.total1 <<< 3
  let low := ctx.total0 <<< 3
  let msglen := putUint64Be high ++ putUint64Be low
  let last := (ctx.total0 &&& 0x7F).toNat
  let padn := if last < 112 then 112 - last else 240 - last
  let ctx ← update ctx sha512Padding padn
  let ctx ← update ctx msglen 16
  pure (stored ctx.state)

/-- `SHA384` of the `n` bytes at `input`: the 64 bytes it stores. -/
def sha384 (input : List UInt8) (n : Nat) : Option (ByteArr 64) := do
  let ctx ← update (starts init) input n
  finish ctx

/-- The hash of `ABCabc`, as the tests of the repository expect it. -/
example : (sha384 [0x41, 0x42, 0x43, 0x61, 0x62, 0x63] 6).map (fun out => out.1.take 48) =
    some [0xf1, 0x5e, 0xf1, 0xfd, 0x00, 0x5d, 0xbb, 0x68, 0x20, 0x9e, 0xea, 0xe4, 0xde, 0x4e, 0x13, 0x11, 0x6f, 0xb6, 0x52, 0xe4,
      0x84, 0x1b, 0x03, 0xb8, 0x82, 0x0e, 0x6a, 0x42, 0x3a, 0x22, 0x25, 0xf6, 0x84, 0x92, 0x53, 0x34, 0x06, 0x11, 0xa3, 0xad,
      0x93, 0x01, 0xaa, 0xb3, 0x71, 0x8d, 0xee, 0x7a] := by
  decide +kernel

end Sha512

end LedgerArweave
