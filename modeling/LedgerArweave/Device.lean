import LedgerArweave.ApduHandler
import LedgerArweave.Lib.Runs

/-!
# The app as a state machine

`handleApdu`, the callbacks of `actions.h` and the events of the user, one step each. Nothing in `handleApdu` refuses a command
while a review is pending, so every event is possible in every state.
-/

namespace LedgerArweave

open Lib

/-- The bytes of one APDU: no more than the APDU buffer holds. -/
abbrev Apdu : Type := { l : List UInt8 // l.length ≤ ioApduBufferSize }

def Apdu.byte (a : Apdu) (i : Nat) : UInt8 := a.1.getD i 0
def Apdu.p1 (a : Apdu) : UInt8 := a.byte offsetP1
def Apdu.p2 (a : Apdu) : UInt8 := a.byte offsetP2

/-- The bytes behind the header of an APDU. -/
def Apdu.data (a : Apdu) : List UInt8 := a.1.drop offsetData

/-- What can happen to the app: an APDU arrives, the user approves or rejects what the screen asks, the user starts the
initialisation, changes the expert mode, or unlocks or locks the device. The salt is what the padding of a signature draws. -/
inductive Event where
  | apdu (a : Apdu)
  | approve (salt : Nat)
  | reject
  | storeInit (phrase : String) (fails : DeviceCall → Bool)
  | setExpert (on : Bool)
  | setPin (validated : Bool)

/-- The bytes the app answers to the host, if it does. -/
abbrev Output : Type := Option (List UInt8)

/-- The app answered with a status word. -/
def Answered (sw : StatusWord) (o : Output) : Prop := ∃ body, o = some (body ++ swBytes sw)

/-- An answer shows its status word. -/
theorem Answered.sw_eq {sw sw' : StatusWord} {body : List UInt8} (h : Answered sw (some (body ++ swBytes sw')))
    (hlt : sw < 0x10000) (hlt' : sw' < 0x10000) : sw = sw' := by
  obtain ⟨body', h⟩ := h
  have hb := (List.append_inj' (Option.some.inj h) rfl).2
  simp only [swBytes, be16, List.cons.injEq, and_true] at hb
  have h1 := ofBe16_be16 hlt
  rw [← hb.1, ← hb.2, ofBe16_be16 hlt'] at h1
  exact h1.symm

theorem Answered.ok : Answered apduCodeOk (some (swBytes apduCodeOk)) := ⟨[], rfl⟩

/-- An answer that ends in another status word is not the one of success. -/
theorem Answered.not_ok_append {sw : StatusWord} {body : List UInt8} (hsw : sw ≠ apduCodeOk) (hlt : sw < 0x10000) :
    ¬Answered apduCodeOk (some (body ++ swBytes sw)) :=
  fun h => hsw (h.sw_eq (by decide) hlt).symm

theorem Answered.not_ok {sw : StatusWord} (hsw : sw ≠ apduCodeOk) (hlt : sw < 0x10000) :
    ¬Answered apduCodeOk (some (swBytes sw)) :=
  fun h => Answered.not_ok_append hsw hlt (by rwa [List.nil_append])

section

variable (P : Platform)

/-! ## The callbacks -/

/-- `set_code` and `io_exchange`: the answer is what the APDU buffer holds, up to and with the status word. -/
def replyWith (d : Device) (replyLen : Nat) (sw : StatusWord) : Device × Output :=
  let io := patch d.io replyLen (swBytes sw)
  ({ d with io := io }, some (io.take (replyLen + 2)))

/-- `app_sign`. -/
def appSign (salt : Nat) (d : Device) : Device × Output :=
  match (cryptoSign P d.upload salt (ioApduBufferSize - 3)).run d.store with
  | .error _ s => replyWith { d with store := s } 0 apduCodeSignVerifyError
  | .ok digest s => replyWith { d with store := s, io := patch d.io 0 digest } sha384DigestLen apduCodeOk

/-- `app_reject`. -/
def appReject (d : Device) : Device × Output :=
  replyWith { d with io := List.replicate ioApduBufferSize 0 } 0 apduCodeCommandNotAllowed

/-- `app_reply_address`. -/
def appReplyAddress (d : Device) : Device × Output := replyWith d d.actionAddrResponseLen apduCodeOk

/-! ## The steps -/

/-- The device after a command and its answer, which is left to the review when the handler says so. -/
def outcome (f : Frame) : Device × Output := (f.dev, if f.asynch then none else some (f.dev.io.take f.tx))

/-- An APDU is received in the APDU buffer and handled. -/
def receive (a : Apdu) (d : Device) : Device × Output :=
  outcome (handleApdu P { d with io := patch d.io 0 a.1 } a.1.length)

/-- The user approves: the callback of the review runs, and the screen goes back to the menu. -/
def approve (salt : Nat) (d : Device) : Device × Output :=
  match d.review with
  | none => (d, none)
  | some .txn => appSign P salt { d with review := none }
  | some .address => appReplyAddress { d with review := none }

/-- The user rejects what a review asks. -/
def reject (d : Device) : Device × Output :=
  match d.review with
  | none => (d, none)
  | some _ => appReject { d with review := none }

/-- The screen of a device that found no key at boot offers the initialisation. -/
def storeInit (phrase : String) (fails : DeviceCall → Bool) (d : Device) : Device × Output :=
  if d.store.deviceInitialized then (d, none)
  else ({ d with store := stateAfter ((cryptoStoreInit P ⟨phrase, fails, none⟩).run d.store) }, none)

/-- The initialisation leaves the signature alone. -/
theorem storeInit_signature (phrase : String) (fails : DeviceCall → Bool) (s : CryptoStore) :
    (stateAfter ((cryptoStoreInit P ⟨phrase, fails, none⟩).run s)).signatureSet = s.signatureSet ∧
      (stateAfter ((cryptoStoreInit P ⟨phrase, fails, none⟩).run s)).nCryptoSig = s.nCryptoSig := by
  have hI : SlotFree fun s' => s'.signatureSet = s.signatureSet ∧ s'.nCryptoSig = s.nCryptoSig :=
    ⟨fun _ _ _ h => h, fun _ _ h => h, fun _ h => h⟩
  exact (keeps_cryptoStoreInit P ⟨phrase, fails, none⟩ hI).stateAfter ⟨rfl, rfl⟩

/-- One step of the app. -/
def Device.step (d : Device) : Event → Device × Output
  | .apdu a => receive P a d
  | .approve salt => approve P salt d
  | .reject => reject d
  | .storeInit phrase fails => storeInit P phrase fails d
  | .setExpert on => ({ d with expert := on }, none)
  | .setPin validated => ({ d with pinValidated := validated }, none)

end

/-- The app after a boot: RAM is zero, flash (the transaction buffer and the key store) is what it was. -/
structure Device.Booted (d : Device) : Prop where
  txInitialized : d.upload.txInitialized = false
  size : d.upload.buffering.size = 0
  pos : d.upload.buffering.pos = 0
  ctxParsedTx : d.upload.ctxParsedTx = ParserContext.zero
  parserTxObj : d.upload.parserTxObj = ParserTx.zero
  review : d.review = none
  signatureSet : d.store.signatureSet = 0

end LedgerArweave
