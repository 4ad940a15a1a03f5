import LedgerArweave.Device

/-!
# The life of a device

The app from one boot to the next: RAM starts anew, flash stays, and the recovery phrase is the one the device has at that boot.
Between two boots `crypto_store_init` may run any number of times, also on a device that found its key.
-/

namespace LedgerArweave

open Lib

/-- What can happen over the life of a device. Every event but the first two is one of the app; `addressHashFails` is a
`GET_ADDR` command whose hash of the key fails. -/
inductive LifeEvent where
  | boot (phrase : String) (fails : DeviceCall → Bool)
  | storeInit (fails : DeviceCall → Bool)
  | apdu (a : Apdu)
  | addressHashFails
  | approve (salt : Nat)
  | reject
  | setExpert (on : Bool)
  | setPin (validated : Bool)

/-- The device, and the recovery phrase it had at the last boot. -/
structure Lifetime where
  dev : Device
  phrase : String

section

variable (P : Platform)

/-- The app after a boot. The settings are in flash, as the key store is. The transaction buffer has no room and no content
until `tx_initialize`, whatever its bytes are. -/
def Device.boot (env : InitEnv) (d : Device) : Device where
  io := List.replicate ioApduBufferSize 0
  upload := ⟨false, ⟨d.upload.buffering.data, 0, 0⟩, ParserContext.zero, ParserTx.zero, ParserTx.zero⟩
  store := LedgerArweave.boot P env d.store
  review := none
  actionAddrResponseLen := 0
  expert := d.expert
  pinValidated := d.pinValidated

/-- `crypto_store_init` on the device. -/
def Device.storeInit (env : InitEnv) (d : Device) : Device :=
  { d with store := stateAfter ((cryptoStoreInit P env).run d.store) }

/-- `handleGetAddress` when the hash of `crypto_fillAddress` fails. -/
def addressHashFails (d : Device) : Device × Output :=
  replyWith { d with io := List.replicate ioApduBufferSize 0, actionAddrResponseLen := 0 } 0 apduCodeExecutionError

/-- A step of the app. -/
def Lifetime.app (s : Lifetime) (r : Device × Output) : Lifetime × Output := ({ s with dev := r.1 }, r.2)

/-- One event. -/
def Lifetime.step (s : Lifetime) : LifeEvent → Lifetime × Output
  | .boot phrase fails => (⟨s.dev.boot P ⟨phrase, fails, none⟩, phrase⟩, none)
  | .storeInit fails => ({ s with dev := s.dev.storeInit P ⟨s.phrase, fails, none⟩ }, none)
  | .apdu a => s.app (s.dev.step P (.apdu a))
  | .addressHashFails => s.app (addressHashFails s.dev)
  | .approve salt => s.app (s.dev.step P (.approve salt))
  | .reject => s.app (s.dev.step P .reject)
  | .setExpert on => s.app (s.dev.step P (.setExpert on))
  | .setPin validated => s.app (s.dev.step P (.setPin validated))

/-- No signature waits after a boot. -/
theorem boot_signatureSet (env : InitEnv) (s : CryptoStore) : (boot P env s).signatureSet = 0 := by
  unfold boot cryptoStoreInitTest
  split
  · rfl
  split
  · rfl
  split
  · rfl
  split <;> rfl

/-- A boot leaves the app as the runs of `Device.step` find it. -/
theorem Device.booted_boot (env : InitEnv) (d : Device) : (d.boot P env).Booted :=
  ⟨rfl, rfl, rfl, rfl, rfl, rfl, boot_signatureSet P env d.store⟩

end

end LedgerArweave
