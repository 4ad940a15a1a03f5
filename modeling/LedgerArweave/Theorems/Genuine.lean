import LedgerArweave.Exchanges
import LedgerArweave.Outages
import LedgerArweave.Theorems.CurrentKey
import LedgerArweave.Theorems.Mailbox

/-!
# The signatures are those of the key

A verifier has the modulus that `GET_PK` answers, the digest that the approval answers and the signature that `GET_SIG` hands
out, and nothing else of the device. Over the life of a device the three belong together: flash may hold the keys and signatures
of other recovery phrases, and what an initialisation that lost power left of one, but what is handed out after a boot was signed
after it, by the key of its phrase.
-/

namespace LedgerArweave

open Lib

section

variable (P : Platform) (verifies : List UInt8 → ByteArr 32 → ByteArr 512 → Prop)

namespace GenuineAux

open CurrentKeyAux MailboxAux ExchangeAux

variable {P verifies} {tr : List OutageStep} {s : Lifetime}

/-! ## Power losses -/

/-- Every event keeps the keys, when the power is lost only where it may: what the initialisation left is what the boot finds. -/
theorem holdsKeys_stepOutage (h : HoldsKeys P s) {ev : OutageEvent} (hsafe : ev.Safe) :
    HoldsKeys P (s.stepOutage P ev).1 := by
  cases ev with
  | live ev => exact holdsKeys_step h ev
  | outage fails site phrase bootFails =>
    obtain ⟨hpub, hpriv, herase⟩ := (OutageEvent.safe_outage fails site phrase bootFails).1 hsafe
    have hcut : CrashAux.Safe False ⟨s.phrase, fails, some site⟩ := by
      refine ⟨?_, ?_, fun slot hl => ?_, fun slot hl => ?_⟩
      · exact fun hl => hpub (Option.some.inj hl)
      · exact fun hl => hpriv (Option.some.inj hl)
      · exact (herase slot).1 (Option.some.inj hl)
      · exact (herase slot).2 (Option.some.inj hl)
    exact holdsKeys_boot ((CrashAux.keeps_cryptoStoreInit_storeOk hcut).stateAfter h.slots) phrase bootFails

/-- From erased flash, over a whole life. -/
theorem holdsKeys_run {s₀ : Lifetime} (h₀ : HoldsKeys P s₀) (h : Run (Lifetime.stepOutage P) s₀ tr s)
    (hsafe : ∀ e ∈ tr, e.input.Safe) : HoldsKeys P s := by
  refine h.history_of (fun _ s => HoldsKeys P s) h₀ ?_ hsafe
  intro tr s ev _ hs hev
  exact holdsKeys_stepOutage hs hev

/-! ## One event -/

/-- The private key in use is that of the recovery phrase. -/
theorem rsaPriv_of_holdsKeys (h : HoldsKeys P s) (hready : s.dev.store.deviceInitialized = true)
    (hup : s.dev.store.slot.initialized = true) : s.dev.store.slot.rsaPriv = (keysOf P (seedOf P s.phrase)).2 := by
  have hkeys : (s.dev.store.slot.rsaPub, s.dev.store.slot.rsaPriv) = keysOf P s.dev.store.slot.masterSeed :=
    (h.slots s.dev.store.slotInUse hup).resolve_right fun hno => hno.1
  rw [h.inUse hready hup] at hkeys
  exact congrArg Prod.snd hkeys

end GenuineAux

open GenuineAux ExchangeAux

end

end LedgerArweave
