import LedgerArweave.Js.Queries
import LedgerArweave.Lib.Refine

/-!
# The wallet an application sees

What the client and the app are for, said without APDUs: an application asks for the version, the address and the key, and has
transactions signed, in any order. The only thing that lasts from one call to the next is a signature that waits to be fetched.
A wallet is closed while it is not initialised or locked; then it tells its version and nothing else.
-/

namespace LedgerArweave

open Lib

/-! ## Calls -/

/-- The methods of `ArweaveApp` that an application calls. -/
inductive ClientCall where
  | getVersion
  | getAddressHash
  | showAddress
  | getPubKeyPart (partnum : Nat)
  | getAddress
  | signGetDigest (message : TxFields)
  | getSignaturePart (partnum : Nat)
  | sign (message : TxFields)
  | digest (message : TxFields)

/-- What a call resolves to. -/
inductive ClientResult where
  | version (result : VersionResult)
  | address (result : AddressResult)
  | identity (result : IdentityResult)
  | part (result : ChunkResult)
  | digest (result : DigestResult)
  | signed (result : SignResult)
  deriving DecidableEq

/-- A call of the client over a transport. -/
def ClientCall.perform {τ : Type} (T : Transport τ) (bufferTob64Url : List UInt8 → String) : ClientCall → Promise τ ClientResult
  | .getVersion => do return .version (← LedgerArweave.getVersion T)
  | .getAddressHash => do return .address (← LedgerArweave.getAddressHash T)
  | .showAddress => do return .address (← LedgerArweave.showAddress T)
  | .getPubKeyPart partnum => do return .part (← LedgerArweave.getPubKeyPart T partnum)
  | .getAddress => do return .identity (← LedgerArweave.getAddress T bufferTob64Url)
  | .signGetDigest message => do return .digest (← LedgerArweave.signGetDigest T message)
  | .getSignaturePart partnum => do return .part (← LedgerArweave.getSignaturePart T partnum)
  | .sign message => do return .signed (← LedgerArweave.sign T message)
  | .digest message => do return .digest (← LedgerArweave.digest T message)

/-- The result of a call that fails with a code and a message: no data. -/
def ClientCall.failed (returnCode : ReturnCode) (errorMessage : String) : ClientCall → ClientResult
  | .getVersion => .version ⟨returnCode, errorMessage, none⟩
  | .getAddressHash | .showAddress => .address ⟨none, returnCode, errorMessage⟩
  | .getPubKeyPart _ | .getSignaturePart _ => .part ⟨none, returnCode, errorMessage⟩
  | .getAddress => .identity ⟨none, none, none, returnCode, errorMessage, none⟩
  | .signGetDigest _ | .digest _ => .digest ⟨returnCode, errorMessage, none⟩
  | .sign _ => .signed ⟨none, none, returnCode, errorMessage, none, none⟩

/-- A call that a closed wallet answers: it is the version that `digest` asks for. -/
def ClientCall.Open : ClientCall → Prop
  | .getVersion | .digest _ => True
  | _ => False

/-! ## The wallet -/

/-- A wallet. -/
structure Wallet where
  /-- The code of every refused call, when the wallet is closed. -/
  closed : Option Nat
  versionBytes : List UInt8
  version : Version
  address : String
  modulus : ByteArr 512
  owner : String
  /-- The transactions that can be signed. -/
  Accepts : TxFields → Prop
  deepHash : TxFields → List UInt8
  /-- The signatures of a hash. -/
  Signature : List UInt8 → ByteArr 512 → Prop

namespace Wallet

variable (W : Wallet)

/-- `No errors`. -/
def noErrors : String := errorCodeToString ReturnCode.noError

/-- What a call answers, and which signature waits before and after it. -/
inductive Answers : Option (ByteArr 512) → ClientCall → ClientResult → Option (ByteArr 512) → Prop where
  | getVersion {m} : Answers m .getVersion (.version ⟨ReturnCode.noError, noErrors, some W.version⟩) m
  /-- No transaction is hashed: the version comes back, with its status word. -/
  | digest {m message} :
      Answers m (.digest message) (.digest ⟨ReturnCode.noError, noErrors, some (W.versionBytes ++ [0x90, 0x00])⟩) m
  | closed {m call code errorMessage} (hclosed : W.closed = some code) (hcall : ¬call.Open) :
      Answers m call (call.failed (.number code) errorMessage) m
  | getAddressHash {m} (hopen : W.closed = none) :
      Answers m .getAddressHash (.address ⟨some W.address, ReturnCode.noError, noErrors⟩) m
  | showAddress {m} (hopen : W.closed = none) :
      Answers m .showAddress (.address ⟨some W.address, ReturnCode.noError, noErrors⟩) m
  | getPubKeyPart {m partnum} (hopen : W.closed = none) :
      Answers m (.getPubKeyPart partnum)
        (.part ⟨some (slice W.modulus.1 (if partnum = 0 then 0 else 256) 256), ReturnCode.noError, noErrors⟩) m
  | getAddress {m} (hopen : W.closed = none) :
      Answers m .getAddress
        (.identity ⟨some W.address, some W.modulus.1, some W.owner, ReturnCode.noError, noErrors, none⟩) m
  | signGetDigest {m message sig result} (hopen : W.closed = none) (haccepts : W.Accepts message)
      (hsig : W.Signature (W.deepHash message) sig) (hcode : result.returnCode = ReturnCode.noError)
      (hdigest : result.digest = some (W.deepHash message)) :
      Answers m (.signGetDigest message) (.digest result) (some sig)
  | signGetDigestRefused {m message result} (hopen : W.closed = none) (haccepts : ¬W.Accepts message)
      (hcode : result.returnCode ≠ ReturnCode.noError) : Answers m (.signGetDigest message) (.digest result) m
  | getSignaturePartNone {partnum} (hopen : W.closed = none) :
      Answers none (.getSignaturePart partnum)
        ((ClientCall.getSignaturePart partnum).failed (.number 0x6985) "Conditions not satisfied") none
  | getSignaturePart {sig partnum} (hopen : W.closed = none) :
      Answers (some sig) (.getSignaturePart partnum)
        (.part ⟨some (slice sig.1 (if partnum = 0 then 0 else 256) 256), ReturnCode.noError, noErrors⟩)
        (if partnum = 0 then some sig else none)
  | sign {m message sig} (hopen : W.closed = none) (haccepts : W.Accepts message)
      (hsig : W.Signature (W.deepHash message) sig) :
      Answers m (.sign message)
        (.signed ⟨some (W.deepHash message), some sig.1, ReturnCode.noError, noErrors, none, none⟩) none
  | signRefused {m message returnCode errorMessage digest} (hopen : W.closed = none) (haccepts : ¬W.Accepts message)
      (hcode : returnCode ≠ ReturnCode.noError) :
      Answers m (.sign message) (.signed ⟨none, none, returnCode, errorMessage, digest, none⟩) m

end Wallet

end LedgerArweave
