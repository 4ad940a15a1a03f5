import LedgerArweave.Js.Encode
import LedgerArweave.Lib.Program

/-!
# The client of the host

`common.js` and the part of `index.js` that signs. A promise is a program over the transport that either resolves or is rejected
with a value; `then` with two handlers is `thenElse`. The transport is any machine that answers requests: what it does with them
is not the client's code.
-/

namespace LedgerArweave

open Lib

/-! ## Constants of `common.js` -/

namespace Common

def cla : UInt8 := 0x44
def insSign : UInt8 := 0x02
def insGetSig : UInt8 := 0x10
def payloadInit : UInt8 := 0x00
def payloadAdd : UInt8 := 0x01
def payloadLast : UInt8 := 0x02
def onlyRetrieve : UInt8 := 0x00
def noError : Nat := 0x9000

end Common

/-- A `returnCode`: a number, or any other value, given by its text. -/
inductive ReturnCode where
  | number (n : Nat)
  | other (text : String)
  deriving DecidableEq, Repr

/-- The code of success. -/
def ReturnCode.noError : ReturnCode := .number Common.noError

/-- `ERROR_DESCRIPTION`. -/
def errorDescription : List (Nat × String) :=
  [(1, "U2F: Unknown"), (2, "U2F: Bad request"), (3, "U2F: Configuration unsupported"), (4, "U2F: Device Ineligible"),
    (5, "U2F: Timeout"), (14, "Timeout"), (0x9000, "No errors"), (0x9001, "Device is busy"), (0x6802, "Error deriving keys"),
    (0x6400, "Execution Error"), (0x6700, "Wrong Length"), (0x6982, "Empty Buffer"), (0x6983, "Output buffer too small"),
    (0x6984, "Data is invalid"), (0x6985, "Conditions not satisfied"), (0x6986, "Transaction rejected"),
    (0x6987, "Not initialized"), (0x6a80, "Bad key handle"), (0x6b00, "Invalid P1/P2"), (0x6d00, "Instruction not supported"),
    (0x6e01, "App does not seem to be open"), (0x6f00, "Unknown error"), (0x6f01, "Sign/verify error")]

/-- `errorCodeToString`: the operator `in` looks for the text of the code among the keys, so that a code that is no number is
found by its text. -/
def errorCodeToString : ReturnCode → String
  | .number n => (errorDescription.lookup n).getD ("Unknown Status Code: " ++ toString n)
  | .other text => ((errorDescription.find? fun entry => toString entry.1 = text).map (·.2)).getD ("Unknown Status Code: " ++ text)

/-! ## Promises -/

/-- What a promise can be rejected with, as `processErrorResponse` tells it apart: an object with a `statusCode`, one with a
`returnCode` and an `errorMessage`, any other value with a text, and a value without one (`undefined`, `null`), of which
`toString` throws an error. -/
inductive Rejection where
  | statusCode (code : ReturnCode)
  | coded (returnCode : ReturnCode) (errorMessage : String) (output : Option (List UInt8))
  | printable (text : String)
  | unprintable (error : String)
  deriving DecidableEq, Repr

/-- The bytes a device answered: some data and a status word. -/
abbrev Response : Type := { l : List UInt8 // 2 ≤ l.length }

/-- How a transport settles the promise for a request. -/
inductive Outcome where
  | resolved (response : Response)
  | rejected (reason : Rejection)
  deriving DecidableEq

/-- The arguments of `transport.send`; an instruction that `INS` lacks is `undefined`. -/
structure Request where
  cla : UInt8
  ins : Option UInt8
  p1 : UInt8
  p2 : UInt8
  data : List UInt8
  statusList : List Nat
  deriving DecidableEq, Repr

/-- A transport: a machine that settles one request after the other. -/
abbrev Transport (τ : Type) : Type := τ → Request → τ × Outcome

/-- The transport in the state it is in, and the requests sent so far. -/
structure Wire (τ : Type) where
  transport : τ
  sent : List Request

abbrev Promise (τ α : Type) : Type := EStateM Rejection (Wire τ) α

section

variable {τ α β : Type}

/-- `promise.then(f, g)`: what `f` throws is not caught by `g`. -/
def thenElse (x : Promise τ α) (f : α → Promise τ β) (g : Rejection → Promise τ β) : Promise τ β := fun w =>
  match x.run w with
  | .ok a w => (f a).run w
  | .error e w => (g e).run w

theorem run_thenElse_of_ok {x : Promise τ α} {w w' : Wire τ} {a : α} (h : x.run w = .ok a w') (f : α → Promise τ β)
    (g : Rejection → Promise τ β) : (thenElse x f g).run w = (f a).run w' := by
  change (match x.run w with
    | .ok a w => (f a).run w
    | .error e w => (g e).run w) = _
  rw [h]

theorem run_thenElse_of_error {x : Promise τ α} {w w' : Wire τ} {e : Rejection} (h : x.run w = .error e w')
    (f : α → Promise τ β) (g : Rejection → Promise τ β) : (thenElse x f g).run w = (g e).run w' := by
  change (match x.run w with
    | .ok a w => (f a).run w
    | .error e w => (g e).run w) = _
  rw [h]

/-- What the client makes of an answer to a chunk. -/
structure ChunkResult where
  output : Option (List UInt8)
  returnCode : ReturnCode
  errorMessage : String
  deriving DecidableEq, Repr

/-- `processErrorResponse`. -/
def processErrorResponse : Rejection → Promise τ ChunkResult
  | .statusCode code => pure ⟨none, code, errorCodeToString code⟩
  | .coded returnCode errorMessage output => pure ⟨output, returnCode, errorMessage⟩
  | .printable text => pure ⟨none, .number 0xffff, text⟩
  | .unprintable error => throw (.printable error)

/-- `errorCodeData[0] * 256 + errorCodeData[1]`, of the last two bytes. -/
def returnCodeOf (response : Response) : Nat :=
  let errorCodeData := response.1.drop (response.1.length - 2)
  (errorCodeData.getD 0 0).toNat * 256 + (errorCodeData.getD 1 0).toNat

/-- A buffer read as ASCII: seven bits of every byte. -/
def toAscii (l : List UInt8) : String := String.ofList (l.map fun b => Char.ofNat (b &&& 0x7f).toNat)

section

variable (T : Transport τ)

/-- `transport.send`. -/
def send (request : Request) : Promise τ Response := fun w =>
  let (transport, outcome) := T w.transport request
  match outcome with
  | .resolved response => .ok response ⟨transport, w.sent ++ [request]⟩
  | .rejected reason => .error reason ⟨transport, w.sent ++ [request]⟩

theorem run_send (request : Request) (w : Wire τ) :
    (send T request).run w =
      match (T w.transport request).2 with
      | .resolved response => .ok response ⟨(T w.transport request).1, w.sent ++ [request]⟩
      | .rejected reason => .error reason ⟨(T w.transport request).1, w.sent ++ [request]⟩ := rfl

/-! ## Signing -/

/-- The first parameter of a chunk. -/
def payloadType (chunkIdx chunkNum : Nat) : UInt8 :=
  if chunkIdx = chunkNum then Common.payloadLast else if chunkIdx = 1 then Common.payloadInit else Common.payloadAdd

/-- The request for a chunk. -/
def chunkRequest (chunkIdx chunkNum : Nat) (chunk : List UInt8) : Request :=
  ⟨Common.cla, Common.insSign, payloadType chunkIdx chunkNum, 0, chunk, [0x9000, 0x6984, 0x6a80]⟩

/-- The requests for the chunks from index `i` on. -/
def requestsFrom (chunkNum : Nat) : (i : Nat) → List (List UInt8) → List Request
  | _, [] => []
  | i, chunk :: chunks => chunkRequest (1 + i) chunkNum chunk :: requestsFrom chunkNum (i + 1) chunks

/-- The requests for the chunks of a transaction. -/
def chunkRequests (message : TxFields) : List Request :=
  requestsFrom (prepareChunks message).length 0 (prepareChunks message)

/-- The handler of an answered chunk in `signSendChunk`. -/
def chunkAnswered (response : Response) : ChunkResult :=
  let returnCode := returnCodeOf response
  let errorMessage := errorCodeToString (.number returnCode)
  { output := if response.1.length > 2 then some (response.1.take 48) else none
    returnCode := .number returnCode
    errorMessage :=
      if returnCode = 0x6a80 ∨ returnCode = 0x6984 then
        errorMessage ++ " : " ++ toAscii (response.1.take (response.1.length - 2))
      else errorMessage }

/-- `signSendChunk`. -/
def signSendChunk (chunkIdx chunkNum : Nat) (chunk : List UInt8) : Promise τ ChunkResult :=
  thenElse (send T (chunkRequest chunkIdx chunkNum chunk)) (fun response => pure (chunkAnswered response))
    processErrorResponse

/-- The loop of `signGetDigest` over the chunks from index `i` on: it breaks at the first result that is no success. -/
def sendChunks (chunkNum : Nat) : (i : Nat) → List (List UInt8) → ChunkResult → Promise τ ChunkResult
  | _, [], result => return result
  | i, chunk :: chunks, _ => do
    let result ← signSendChunk T (1 + i) chunkNum chunk
    if result.returnCode ≠ ReturnCode.noError then return result
    else sendChunks chunkNum (i + 1) chunks result

/-- What `signGetDigest` resolves to. -/
structure DigestResult where
  returnCode : ReturnCode
  errorMessage : String
  digest : Option (List UInt8)
  deriving DecidableEq, Repr

/-- `processErrorResponse` as the last handler of `signGetDigest`: its result has no digest. -/
def processDigestError (reason : Rejection) : Promise τ DigestResult := do
  let result ← processErrorResponse reason
  return ⟨result.returnCode, result.errorMessage, none⟩

/-- `signGetDigest`: the result of the first chunk only starts the loop. -/
def signGetDigest (message : TxFields) : Promise τ DigestResult :=
  let chunks := prepareChunks message
  thenElse (signSendChunk T 1 chunks.length (chunks.headD []))
    (fun response => do
      let result ← sendChunks T chunks.length 1 chunks.tail ⟨none, response.returnCode, response.errorMessage⟩
      return ⟨result.returnCode, result.errorMessage, result.output⟩)
    processDigestError

/-- `processGetRSAResponse`. -/
def processGetRSAResponse (response : Response) : ChunkResult where
  output := some (response.1.take 256)
  returnCode := .number (returnCodeOf response)
  errorMessage := errorCodeToString (.number (returnCodeOf response))

/-- The request for a half of the signature. -/
def signatureRequest (partnum : Nat) : Request :=
  ⟨Common.cla, Common.insGetSig, Common.onlyRetrieve, if partnum = 0 then 0 else 1, [], [0x9000]⟩

/-- `getSignaturePart`. -/
def getSignaturePart (partnum : Nat) : Promise τ ChunkResult :=
  thenElse (send T (signatureRequest partnum)) (fun response => pure (processGetRSAResponse response)) processErrorResponse

/-- `Buffer.from`, which throws an error when it is given `undefined`. -/
def bufferFrom : Option (List UInt8) → Promise τ (List UInt8)
  | some bytes => pure bytes
  | none => throw (.printable ("TypeError [ERR_INVALID_ARG_TYPE]: The first argument must be of type string or an instance of " ++
      "Buffer, ArrayBuffer, or Array or an Array-like Object. Received undefined"))

/-- What `sign` resolves to: on success a hash and a signature. A failure is the result of the call that failed, with the
`digest` of `signGetDigest` or the `output` of `getSignaturePart`. -/
structure SignResult where
  deephash : Option (List UInt8)
  signature : Option (List UInt8)
  returnCode : ReturnCode
  errorMessage : String
  digest : Option (List UInt8)
  output : Option (List UInt8)
  deriving DecidableEq, Repr

/-- `sign`. -/
def sign (message : TxFields) : Promise τ SignResult := do
  let req1 ← signGetDigest T message
  if req1.returnCode ≠ ReturnCode.noError then return ⟨none, none, req1.returnCode, req1.errorMessage, req1.digest, none⟩
  else
    let req2 ← getSignaturePart T 0
    if req2.returnCode ≠ ReturnCode.noError then return ⟨none, none, req2.returnCode, req2.errorMessage, none, req2.output⟩
    else
      let req3 ← getSignaturePart T 1
      if req3.returnCode ≠ ReturnCode.noError then return ⟨none, none, req3.returnCode, req3.errorMessage, none, req3.output⟩
      else
        let first ← bufferFrom req2.output
        let second ← bufferFrom req3.output
        return ⟨req1.digest, some (first ++ second), ReturnCode.noError, errorCodeToString ReturnCode.noError, none, none⟩

end

end

end LedgerArweave
