import LedgerArweave.Js.Client
import LedgerArweave.Lib.Utf8

/-!
# The queries of the client

The rest of `index.js`, and `getVersion` of `common.js`: the version of the app, its address and its public key, and `digest`,
which sends a transaction as `sign` does. `INS` has no `GET_DIGEST`, and an instruction that is `undefined` goes over the wire as
a zero.
-/

namespace LedgerArweave

open Lib

namespace Common

def insGetVersion : UInt8 := 0x00
def insGetAddress : UInt8 := 0x01
def insGetPk : UInt8 := 0x20
def showAddressInDevice : UInt8 := 0x01

/-- `INS.GET_DIGEST`, which is `undefined`. -/
def insGetDigest : Option UInt8 := none

end Common

section

variable {τ : Type} (T : Transport τ)

/-! ## The version -/

/-- `n.toString(16)` of an integer. -/
def hexString (n : Int) : String := String.ofList ((if n < 0 then ['-'] else []) ++ Nat.toDigits 16 n.natAbs)

/-- `v << 24`, of a byte: a signed number of 32 bits. -/
def shiftLeft24 (v : UInt8) : Int := Int.bmod (v.toNat * 16777216) 4294967296

/-- The fields of `getVersion` that come from the data of an answer; a byte that is not there is `undefined`. -/
structure Version where
  testMode : Bool
  major : Option UInt8
  minor : Option UInt8
  patch : Option UInt8
  deviceLocked : Bool
  targetId : String
  deriving DecidableEq, Repr

/-- What `getVersion` resolves to: without a version when an error is processed. -/
structure VersionResult where
  returnCode : ReturnCode
  errorMessage : String
  version : Option Version
  deriving DecidableEq, Repr

/-- `targetId`, before it is printed. -/
def targetId (response : List UInt8) : Int :=
  if response.length ≥ 9 then
    shiftLeft24 (response.getD 5 0) + (response.getD 6 0).toNat * 65536 + (response.getD 7 0).toNat * 256 +
      (response.getD 8 0).toNat
  else 0

/-- The handler of the answer in `getVersion`. -/
def versionAnswered (response : Response) : VersionResult where
  returnCode := .number (returnCodeOf response)
  errorMessage := errorCodeToString (.number (returnCodeOf response))
  version := some
    { testMode := response.1[0]? ≠ some 0
      major := response.1[1]?
      minor := response.1[2]?
      patch := response.1[3]?
      deviceLocked := response.1[4]? = some 1
      targetId := hexString (targetId response.1) }

/-- `processErrorResponse` as the last handler of `getVersion`. -/
def processVersionError (reason : Rejection) : Promise τ VersionResult := do
  let result ← processErrorResponse reason
  return ⟨result.returnCode, result.errorMessage, none⟩

/-- What resolves is not caught. -/
theorem run_tryCatch_of_ok {α : Type} {x : Promise τ α} {w w' : Wire τ} {a : α} (h : x.run w = .ok a w')
    (g : Rejection → Promise τ α) : (tryCatch x g).run w = .ok a w' := by
  change EStateM.tryCatch x g w = _
  unfold EStateM.tryCatch
  rw [show x w = .ok a w' from h]

/-- The request for the version; `transport.send` expects 0x9000 when it is not told otherwise. -/
def versionRequest : Request := ⟨Common.cla, Common.insGetVersion, 0, 0, [], [0x9000]⟩

/-- `getVersion`; the client's own `catch` processes what the handler of `common.js` throws. -/
def getVersion : Promise τ VersionResult :=
  tryCatch (thenElse (send T versionRequest) (fun response => pure (versionAnswered response)) processVersionError)
    processVersionError

/-! ## The address -/

/-- What a query for the address resolves to: without an address when an error is processed. -/
structure AddressResult where
  address : Option String
  returnCode : ReturnCode
  errorMessage : String
  deriving DecidableEq, Repr

/-- `processGetAddrResponse`. -/
def processGetAddrResponse (response : Response) : AddressResult where
  address := some (utf8Text (response.1.take (response.1.length - 2)))
  returnCode := .number (returnCodeOf response)
  errorMessage := errorCodeToString (.number (returnCodeOf response))

/-- `processErrorResponse` as the last handler of a query for the address. -/
def processAddressError (reason : Rejection) : Promise τ AddressResult := do
  let result ← processErrorResponse reason
  return ⟨none, result.returnCode, result.errorMessage⟩

/-- The request for the address. -/
def addressRequest (p1 : UInt8) : Request := ⟨Common.cla, Common.insGetAddress, p1, 0, [], [0x9000]⟩

/-- `getAddressHash`. -/
def getAddressHash : Promise τ AddressResult :=
  thenElse (send T (addressRequest Common.onlyRetrieve)) (fun response => pure (processGetAddrResponse response))
    processAddressError

/-- `showAddress`. -/
def showAddress : Promise τ AddressResult :=
  thenElse (send T (addressRequest Common.showAddressInDevice)) (fun response => pure (processGetAddrResponse response))
    processAddressError

/-! ## The public key -/

/-- The request for a half of the modulus. -/
def publicKeyRequest (partnum : Nat) : Request :=
  ⟨Common.cla, Common.insGetPk, Common.onlyRetrieve, if partnum = 0 then 0 else 1, [], [0x9000]⟩

/-- `getPubKeyPart`. -/
def getPubKeyPart (partnum : Nat) : Promise τ ChunkResult :=
  thenElse (send T (publicKeyRequest partnum)) (fun response => pure (processGetRSAResponse response)) processErrorResponse

/-- What `getAddress` resolves to: the result of the query that failed, or all of the key. -/
structure IdentityResult where
  address : Option String
  pubkey : Option (List UInt8)
  owner : Option String
  returnCode : ReturnCode
  errorMessage : String
  output : Option (List UInt8)
  deriving DecidableEq, Repr

/-- `getAddress`; `bufferTob64Url` is `Arweave.utils.bufferTob64Url`. -/
def getAddress (bufferTob64Url : List UInt8 → String) : Promise τ IdentityResult := do
  let req1 ← getAddressHash T
  if req1.returnCode ≠ ReturnCode.noError then return ⟨req1.address, none, none, req1.returnCode, req1.errorMessage, none⟩
  else
    let req2 ← getPubKeyPart T 0
    if req2.returnCode ≠ ReturnCode.noError then return ⟨none, none, none, req2.returnCode, req2.errorMessage, req2.output⟩
    else
      let req3 ← getPubKeyPart T 1
      if req3.returnCode ≠ ReturnCode.noError then return ⟨none, none, none, req3.returnCode, req3.errorMessage, req3.output⟩
      else
        let first ← bufferFrom req2.output
        let second ← bufferFrom req3.output
        let pk := first ++ second
        return ⟨req1.address, some pk, some (bufferTob64Url pk), ReturnCode.noError, errorCodeToString ReturnCode.noError, none⟩

/-! ## The digest -/

/-- The request for a chunk of `digest`. -/
def digestChunkRequest (chunkIdx chunkNum : Nat) (chunk : List UInt8) : Request :=
  { chunkRequest chunkIdx chunkNum chunk with ins := Common.insGetDigest }

/-- The handler of an answered chunk in `digestSendChunk`: that of `signSendChunk`, its output under another name. -/
def digestChunkAnswered (response : Response) : DigestResult :=
  let result := chunkAnswered response
  ⟨result.returnCode, result.errorMessage, result.output⟩

/-- `digestSendChunk`. -/
def digestSendChunk (chunkIdx chunkNum : Nat) (chunk : List UInt8) : Promise τ DigestResult :=
  thenElse (send T (digestChunkRequest chunkIdx chunkNum chunk)) (fun response => pure (digestChunkAnswered response))
    processDigestError

/-- The loop of `digest` over the chunks from index `i` on. -/
def digestChunks (chunkNum : Nat) : (i : Nat) → List (List UInt8) → DigestResult → Promise τ DigestResult
  | _, [], result => return result
  | i, chunk :: chunks, _ => do
    let result ← digestSendChunk T (1 + i) chunkNum chunk
    if result.returnCode ≠ ReturnCode.noError then return result
    else digestChunks chunkNum (i + 1) chunks result

/-- `digest`. -/
def digest (message : TxFields) : Promise τ DigestResult :=
  let chunks := prepareChunks message
  thenElse (digestSendChunk T 1 chunks.length (chunks.headD []))
    (fun response => digestChunks T chunks.length 1 chunks.tail ⟨response.returnCode, response.errorMessage, none⟩)
    processDigestError

end

end LedgerArweave
