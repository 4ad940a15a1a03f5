import LedgerArweave.CryptoStore
import LedgerArweave.Lib.Runs

/-!
# Boots and power losses

The app over the life of a device: flash stays across boots, RAM does not, and the power can go at any time. Each flash write of
the initialisation is one step of the flash, so a loss between two writes is a loss right before the second one.
-/

namespace LedgerArweave

open Lib

/-- What can happen: a boot, with the recovery phrase the device has then, or the initialisation, which the power may interrupt
right before one of its writes. -/
inductive PowerEvent where
  | boot (phrase : String) (fails : DeviceCall → Bool)
  | storeInit (fails : DeviceCall → Bool) (powerLoss : Option NvSite)

/-- The key store, the recovery phrase since the last boot, and whether the power is on. -/
structure Powered where
  store : CryptoStore
  phrase : String
  on : Bool

section

variable (P : Platform)

/-- One event. A boot answers what `crypto_store_init_test` returned. -/
def Powered.step (s : Powered) : PowerEvent → Powered × Option Bool
  | .boot phrase fails =>
    (⟨boot P ⟨phrase, fails, none⟩ s.store, phrase, true⟩,
      some (cryptoStoreInitTest P ⟨phrase, fails, none⟩ s.store.reset).1)
  | .storeInit fails powerLoss =>
    if s.on then
      match (cryptoStoreInit P ⟨s.phrase, fails, powerLoss⟩).run s.store with
      | .ok _ store => ({ s with store := store }, none)
      | .error (.zx _) store => ({ s with store := store }, none)
      | .error .powerLoss store => ({ s with store := store, on := false }, none)
    else (s, none)

end

end LedgerArweave
