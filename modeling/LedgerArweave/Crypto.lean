import LedgerArweave.Parser.Digest
import LedgerArweave.Tx

/-!
# Signing and the address

`crypto.c`: the signature of a parsed transaction, the parts of it that are handed out, and the address of the key.
-/

namespace LedgerArweave

open Lib

section

variable (P : Platform)

/-- `crypto_getsignature_part`. -/
def cryptoGetsignaturePart (bufferLen index : Nat) : EStateM ZxErr CryptoStore (List UInt8) := do
  let s ← get
  if !isSigSet s ∨ bufferLen < 256 then throw .invalidCryptoSettings
  else cryptoSignaturePart index

/-- `crypto_sign`: the digest of the transaction, and its signature left in flash. -/
def cryptoSign (u : Upload) (salt signatureMaxlen : Nat) : EStateM ZxErr CryptoStore (List UInt8) := do
  let s ← get
  if !cryptoStoreIsInitialized s then throw .invalidCryptoSettings
  else if signatureMaxlen < sha384DigestLen then throw .bufferTooSmall
  else
    match parserGetDigest P.sha384 u.buffering.data u.parserTxObj sha384DigestLen with
    | .error _ => throw .unknown
    | .ok digest =>
      match cryptoStoreGetPrivkey s with
      | none => throw .invalidCryptoSettings
      | some rsaPrivkey =>
        match P.rsaSign rsaPrivkey salt (P.sha256 digest) with
        | none => throw .unknown
        | some sig =>
          modify (cryptoStoreSignature sig)
          return digest

/-- `sizeof_field(answer_t, addrStr)`. -/
def addrStrLen : Nat := 43

/-- `crypto_fillAddress`: the characters it writes at the start of the buffer. -/
def cryptoFillAddress (store : CryptoStore) (bufferLen : Nat) : Except ZxErr (List UInt8) :=
  if !cryptoStoreIsInitialized store then .error .invalidCryptoSettings
  else if bufferLen < addrStrLen + 4 then .error .bufferTooSmall
  else
    match cryptoStoreGetPubkey store with
    | none => .error .invalidCryptoSettings
    | some rsaPubkey =>
      let hashPubkey := P.sha256 (rsaPubkey.n.1.take rsaPubkey.size)
      match b64urlEncode addrStrLen hashPubkey.1 ⟨cxSha256Size, some 0⟩ with
      | none => .error .unknown
      | some (0, _) => .error .unknown
      | some (_ + 1, addrStr) => .ok addrStr

end

end LedgerArweave
