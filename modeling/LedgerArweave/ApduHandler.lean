import LedgerArweave.Crypto

/-!
# The commands

`apdu_handler.c`. A handler works on the device, the length of the answer so far (`*tx`) and the flag that says the answer
comes later (`IO_ASYNCH_REPLY`); it ends by throwing a status word, or returns when the answer is left to the review.
-/

namespace LedgerArweave

open Lib

/-- What the screen asks the user to approve: a transaction (`app_sign` on approval) or the address (`app_reply_address`). -/
inductive Review where
  | txn | address
  deriving DecidableEq, Repr

/-- The state of the app: the APDU buffer, the upload, the key store, the review that is pending, the length of the address,
and the settings. -/
structure Device where
  io : List UInt8
  upload : Upload
  store : CryptoStore
  review : Option Review
  actionAddrResponseLen : Nat
  expert : Bool
  pinValidated : Bool

/-- What a handler works on. -/
structure Frame where
  dev : Device
  tx : Nat
  asynch : Bool

abbrev Handler : Type → Type := EStateM StatusWord Frame

def Frame.upload (f : Frame) : Upload := f.dev.upload
def Frame.setUpload (u : Upload) (f : Frame) : Frame := { f with dev.upload := u }
def Frame.store (f : Frame) : CryptoStore := f.dev.store
def Frame.setStore (s : CryptoStore) (f : Frame) : Frame := { f with dev.store := s }

/-- `*tx = n`. -/
def setTx (n : Nat) : Handler Unit := modify fun f => { f with tx := n }

/-- `MEMZERO(G_io_apdu_buffer, IO_APDU_BUFFER_SIZE)`. -/
def zeroIo : Handler Unit := modify fun f => { f with dev.io := List.replicate ioApduBufferSize 0 }

/-- Write at the start of the APDU buffer. -/
def writeIo (bytes : List UInt8) : Handler Unit := modify fun f => { f with dev.io := patch f.dev.io 0 bytes }

/-- `view_review_init`, `view_review_show` and the flag `IO_ASYNCH_REPLY`. -/
def openReview (r : Review) : Handler Unit := modify fun f => { f with dev.review := some r, asynch := true }

@[simp] theorem run_setTx (n : Nat) (f : Frame) : (setTx n).run f = .ok ⟨⟩ { f with tx := n } := rfl

@[simp] theorem run_zeroIo (f : Frame) :
    zeroIo.run f = .ok ⟨⟩ { f with dev.io := List.replicate ioApduBufferSize 0 } := rfl

@[simp] theorem run_writeIo (bytes : List UInt8) (f : Frame) :
    (writeIo bytes).run f = .ok ⟨⟩ { f with dev.io := patch f.dev.io 0 bytes } := rfl

section

variable (P : Platform)

/-- `handle_getversion`. The fifth byte is the lock flag of the operating system, `!IS_UX_ALLOWED`, which is taken not to change
between two commands. -/
def handleGetversion : Handler Unit := do
  writeIo P.version.1
  modify fun f => { f with tx := f.tx + 9 }
  throw apduCodeOk

/-- `handleGetAddress`. -/
def handleGetAddress : Handler Unit := do
  setTx 0
  let f ← get
  if f.dev.io.getD offsetDataLen 0 ≠ 0 then throw apduCodeCommandNotAllowed
  else
    let requireConfirmation := f.dev.io.getD offsetP1 0
    zeroIo
    modify fun f => { f with dev.actionAddrResponseLen := 0 }
    match cryptoFillAddress P f.dev.store (ioApduBufferSize - 2) with
    | .error _ => throw apduCodeExecutionError
    | .ok addrStr =>
      writeIo addrStr
      modify fun f => { f with dev.actionAddrResponseLen := addrStrLen }
      if requireConfirmation ≠ 0 then openReview .address
      else
        setTx addrStrLen
        throw apduCodeOk

/-- What `handleGetPubKeyPart` and `handleGetSigPart` share: the part of 256 bytes the index names. -/
def handlePart (part : (bufferLen index : Nat) → EStateM ZxErr CryptoStore (List UInt8)) : Handler Unit := do
  setTx 0
  let f ← get
  if f.dev.io.getD offsetDataLen 0 ≠ 0 then throw apduCodeCommandNotAllowed
  else
    let index := (f.dev.io.getD offsetP2 0).toNat
    zeroIo
    match ← attempt (zoom Frame.store Frame.setStore (part (ioApduBufferSize - 3) index)) with
    | .error _ =>
      setTx 0
      throw apduCodeConditionsNotSatisfied
    | .ok bytes =>
      writeIo bytes
      setTx 256
      throw apduCodeOk

/-- `handleGetPubKeyPart`. -/
def handleGetPubKeyPart : Handler Unit :=
  handlePart fun bufferLen index => do
    let s ← get
    match cryptoGetpubkeyPart s bufferLen index with
    | .ok bytes => pure bytes
    | .error e => throw e

/-- `handleGetSigPart`. -/
def handleGetSigPart : Handler Unit := handlePart cryptoGetsignaturePart

/-- `handleSign`. -/
def handleSign (rx : Nat) : Handler Unit := do
  let f ← get
  let last ← zoom Frame.upload Frame.setUpload (processChunk P f.dev.io rx)
  if !last then throw apduCodeOk
  else
    match ← attempt (zoom Frame.upload Frame.setUpload (txParse P f.dev.store f.dev.expert)) with
    | .error err =>
      let errorMsg := ascii (parserGetErrorDescription err)
      writeIo errorMsg
      modify fun f => { f with tx := f.tx + errorMsg.length }
      throw apduCodeDataInvalid
    | .ok _ => openReview .txn

/-- `CHECK_PIN_VALIDATED`. -/
def checkPinValidated : Handler Unit := do
  let f ← get
  if f.dev.pinValidated then pure () else throw P.pinCode

/-- The `TRY` block of `handleApdu`. -/
def dispatch (rx : Nat) : Handler Unit := do
  let f ← get
  if f.dev.io.getD offsetCla 0 ≠ cla then throw apduCodeClaNotSupported
  else if rx < apduMinLength then throw apduCodeWrongLength
  else
    let ins := f.dev.io.getD offsetIns 0
    if !f.dev.store.deviceInitialized ∧ ins ≠ insGetVersion then throw apduCodeTxNotInitialized
    else if ins = insGetVersion then handleGetversion P
    else if ins = insGetAddr then do
      checkPinValidated P
      handleGetAddress P
    else if ins = insSign then do
      checkPinValidated P
      handleSign P rx
    else if ins = insGetSig then do
      checkPinValidated P
      handleGetSigPart
    else if ins = insGetPk then do
      checkPinValidated P
      handleGetPubKeyPart
    else throw apduCodeInsNotSupported

/-- The two bytes of a status word. -/
def swBytes (sw : StatusWord) : List UInt8 := be16 sw

/-- The status word an exception is answered with. -/
def answeredSw (e : StatusWord) : StatusWord :=
  if e &&& 0xF000 = 0x6000 ∨ e &&& 0xF000 = apduCodeOk then e else 0x6800 ||| (e &&& 0x7FF)

/-- The `CATCH_OTHER` block of `handleApdu`: the status word goes behind the answer. -/
def catchOther (e : StatusWord) (f : Frame) : Frame :=
  { f with dev.io := patch f.dev.io f.tx (swBytes (answeredSw e)), tx := f.tx + 2 }

/-- The end of `handleApdu`. -/
def finish : EStateM.Result StatusWord Frame Unit → Frame
  | .ok _ f => f
  | .error e f => catchOther e f

/-- `handleApdu` on `rx` bytes received in the APDU buffer. -/
def handleApdu (d : Device) (rx : Nat) : Frame := finish ((dispatch P rx).run ⟨d, 0, false⟩)

end

end LedgerArweave
