import LedgerArweave.Lifetime

/-!
# Power losses in the life of a device

The life of a device when the power may go at any time. An initialisation writes flash many times, and a loss between two writes
is a loss right before the second one; the next boot finds flash as the writes before it left it. Every other step writes flash
once at most, so a loss there is a boot, before the step or after it.
-/

namespace LedgerArweave

open Lib

/-- What can happen: an event of `Lifetime.step`, or an initialisation that loses power right before one of its writes, if it
comes to that write, and the boot after it, with the recovery phrase the device has then. -/
inductive OutageEvent where
  | live (ev : LifeEvent)
  | outage (fails : DeviceCall → Bool) (site : NvSite) (phrase : String) (bootFails : DeviceCall → Bool)

/-- No initialisation loses power right before it writes a key, or right before it erases the seed or takes down the flag of a
slot. -/
def OutageEvent.Safe (ev : OutageEvent) : Prop :=
  ∀ fails site phrase bootFails, ev = .outage fails site phrase bootFails →
    site ≠ .rsaPub ∧ site ≠ .rsaPriv ∧ ∀ slot, site ≠ .uninitMasterSeed slot ∧ site ≠ .uninitInitialized slot

/-- The events of `Lifetime.step` lose no power inside an initialisation. -/
@[simp] theorem OutageEvent.safe_live (ev : LifeEvent) : (OutageEvent.live ev).Safe := nofun

/-- A loss is judged by the write it comes before. -/
@[simp] theorem OutageEvent.safe_outage (fails : DeviceCall → Bool) (site : NvSite) (phrase : String)
    (bootFails : DeviceCall → Bool) :
    (OutageEvent.outage fails site phrase bootFails).Safe ↔
      site ≠ .rsaPub ∧ site ≠ .rsaPriv ∧ ∀ slot, site ≠ .uninitMasterSeed slot ∧ site ≠ .uninitInitialized slot := by
  constructor
  · intro h
    exact h fails site phrase bootFails rfl
  · intro h _ _ _ _ hev
    cases hev
    exact h

section

variable (P : Platform)

/-- One event. -/
def Lifetime.stepOutage (s : Lifetime) : OutageEvent → Lifetime × Output
  | .live ev => s.step P ev
  | .outage fails site phrase bootFails =>
    Lifetime.step P { s with dev := s.dev.storeInit P ⟨s.phrase, fails, some site⟩ } (.boot phrase bootFails)

end

/-- A step of a device over a life with power losses. -/
abbrev OutageStep : Type := Entry Lifetime OutageEvent Output

end LedgerArweave
