import LedgerArweave.KeySlots

/-!
# Slots that are erased

The initialisation erases both slots when neither seems to be that of the recovery phrase: a call that fails counts as another
seed, and the slots are gone before the calls that fill the first one anew, any of which can fail.
-/

namespace LedgerArweave

open Lib

section

variable (P : Platform)

/-- The initialisation erases a slot, flag and all. -/
def Erases (phrase : String) (fails : DeviceCall → Bool) (s : CryptoStore) (slot : KeySlot) : Prop :=
  ∃ s', ReachesWrite P phrase fails s (.uninitInitialized slot) s'

/-- An initialisation that fails leaves every initialised slot as it was, and none erases an initialised slot that holds the
seed of the recovery phrase. -/
structure DestroysNoKeys (phrase : String) (fails : DeviceCall → Bool) (s : CryptoStore) : Prop where
  failed : ∀ e s', (cryptoStoreInit P ⟨phrase, fails, none⟩).run s = .error e s' →
    ∀ slot, (s.nCryptoStore slot).initialized = true → s'.nCryptoStore slot = s.nCryptoStore slot
  own : ∀ slot, (s.nCryptoStore slot).initialized = true → (s.nCryptoStore slot).masterSeed = seedOf P phrase →
    ¬Erases P phrase fails s slot

namespace EvictionAux

variable {P} {phrase : String} {fails : DeviceCall → Bool} {s : CryptoStore}

/-- The initialisation erases slots only when the tree ends there. -/
theorem choice_of_erases {slot : KeySlot} (h : Erases P phrase fails s slot) : choice P ⟨phrase, fails, none⟩ s = .evict := by
  obtain ⟨s', h⟩ := h
  have hpower : PowerHolds ⟨phrase, fails, some (.uninitInitialized slot)⟩ := by
    intro site hsite heq
    cases heq
    simp [fillSites] at hsite
  rw [ReachesWrite, run_cryptoStoreInit, choice_powerLoss] at h
  cases hc : choice P ⟨phrase, fails, none⟩ s with
  | use slot' =>
    rw [hc] at h
    cases h
  | fill slot' =>
    rw [hc] at h
    exact absurd h (run_cryptoInitializeSlot_ne_powerLoss P hpower { s with slotInUse := slot' } s')
  | evict => rfl

/-- Erasing a slot stops where the flag goes down when the power goes there. -/
theorem run_cryptoUninitializedSlot_of_loss (slot : KeySlot) (s : CryptoStore) :
    ∃ s', (cryptoUninitializedSlot ⟨phrase, fails, some (.uninitInitialized slot)⟩ slot).run s = .error .powerLoss s' := by
  have hne : ∀ site ∈ [NvSite.uninitPq slot, .uninitRsaPriv slot, .uninitMasterSeed slot],
      some (NvSite.uninitInitialized slot) ≠ some site := by cases slot <;> decide
  rw [cryptoUninitializedSlot, run_bind_of_ok (run_nvWrite (hne (.uninitPq slot) (by simp)) _ s),
    run_bind_of_ok (run_nvWrite (hne (.uninitRsaPriv slot) (by simp)) _ _),
    run_bind_of_ok (run_nvWrite (hne (.uninitMasterSeed slot) (by simp)) _ _)]
  exact ⟨_, run_nvWrite_of_loss rfl _ _⟩

/-- At the end of the tree both slots are erased. -/
theorem erases_of_choice (h : choice P ⟨phrase, fails, none⟩ s = .evict) (slot : KeySlot) : Erases P phrase fails s slot := by
  unfold Erases ReachesWrite
  rw [run_cryptoStoreInit, choice_powerLoss, h]
  cases slot with
  | one =>
    obtain ⟨s', hrun⟩ := run_cryptoUninitializedSlot_of_loss .one s
    exact ⟨s', run_bind_of_error hrun _⟩
  | two =>
    have hone : ∀ site ∈ wipeSites .one, some (NvSite.uninitInitialized .two) ≠ some site := by decide
    obtain ⟨s', hrun⟩ := run_cryptoUninitializedSlot_of_loss .two (setSlotAt .one CryptoSlot.wiped s)
    refine ⟨s', ?_⟩
    simp only
    rw [run_bind_of_ok (run_cryptoUninitializedSlot hone s)]
    exact run_bind_of_error hrun _

/-- An initialisation that fails behind the erasing leaves the first slot empty. -/
theorem lost_of_failed {e : InitStop} {s' : CryptoStore} (he : Evicts P ⟨phrase, fails, none⟩ s)
    (hrun : (cryptoStoreInit P ⟨phrase, fails, none⟩).run s = .error e s') : (s'.nCryptoStore .one).initialized = false := by
  have hout := initOutcome P ⟨phrase, fails, none⟩ rfl s
  rw [hrun] at hout
  cases hout with
  | @failed c f hc _ _ hf =>
    have hslot : (setSlot f (c.apply s)).slotInUse = .one := by
      rw [← hc, choice_eq_evict_iff.2 he]
      rfl
    rw [← hslot]
    change (setSlot f (c.apply s)).slot.initialized = false
    rw [setSlot_slot]
    exact hf

/-- An initialisation that does not find the slot of the recovery phrase succeeds exactly when every call that fills a slot
does. -/
theorem succeeds_iff (hnot : ∀ slot, choice P ⟨phrase, fails, none⟩ s ≠ .use slot) :
    (∃ s', (cryptoStoreInit P ⟨phrase, fails, none⟩).run s = .ok () s') ↔ callsSucceed ⟨phrase, fails, none⟩ = true := by
  have hout := initOutcome P ⟨phrase, fails, none⟩ rfl s
  generalize (cryptoStoreInit P ⟨phrase, fails, none⟩).run s = r at hout
  cases hout with
  | found hc => exact absurd hc (hnot _)
  | filled _ _ hcalls => exact iff_of_true ⟨_, rfl⟩ hcalls
  | failed _ _ hcalls =>
    refine iff_of_false (fun ⟨s', h⟩ => nomatch h) ?_
    rw [hcalls]
    exact nofun

end EvictionAux

open EvictionAux

/-- A failing or confused initialisation destroys no keys exactly when it erases no slots, or when all calls that fill the first
slot anew succeed and neither slot holds the seed of the recovery phrase. -/
theorem destroys_no_keys_iff (phrase : String) (fails : DeviceCall → Bool) (s : CryptoStore) :
    DestroysNoKeys P phrase fails s ↔
      ¬Evicts P ⟨phrase, fails, none⟩ s ∨
        (callsSucceed ⟨phrase, fails, none⟩ = true ∧ ∀ slot, (s.nCryptoStore slot).masterSeed ≠ seedOf P phrase) := by
  have hnot : Evicts P ⟨phrase, fails, none⟩ s → ∀ slot, choice P ⟨phrase, fails, none⟩ s ≠ .use slot := by
    intro he slot
    rw [choice_eq_evict_iff.2 he]
    exact nofun
  constructor
  · intro h
    by_cases he : Evicts P ⟨phrase, fails, none⟩ s
    · refine Or.inr ⟨(succeeds_iff (hnot he)).1 ?_, ?_⟩
      · cases hrun : (cryptoStoreInit P ⟨phrase, fails, none⟩).run s with
        | ok a s' => exact ⟨s', rfl⟩
        | error e s' =>
          have hlost := lost_of_failed he hrun
          rw [h.failed e s' hrun .one (he .one).1, (he .one).1] at hlost
          cases hlost
      · exact fun slot hseed => h.own slot (he slot).1 hseed (erases_of_choice (choice_eq_evict_iff.2 he) slot)
    · exact Or.inl he
  · intro h
    constructor
    · intro e s' hrun slot hinit
      have hne : choice P ⟨phrase, fails, none⟩ s ≠ .evict := by
        intro hc
        have he := choice_eq_evict_iff.1 hc
        obtain ⟨hcalls, -⟩ := h.resolve_left fun hno => hno he
        obtain ⟨s'', hok⟩ := (succeeds_iff (hnot he)).2 hcalls
        rw [hrun] at hok
        cases hok
      have hkept := kept_of_ne_evict rfl hne hinit
      rwa [hrun] at hkept
    · intro slot _ hseed herase
      have he := choice_eq_evict_iff.1 (choice_of_erases herase)
      rcases h with hno | ⟨-, hother⟩
      · exact hno he
      · exact hother slot hseed

end

/-- A third recovery phrase, whose keys cannot be generated: the two slots that were filled are gone. -/
theorem not_destroys_no_keys :
    let s := (final (Powered.step Demo.platform) ⟨CryptoStore.erased, "", false⟩
      [.boot "one" fun _ => false, .storeInit (fun _ => false) none, .boot "two" fun _ => false,
        .storeInit (fun _ => false) none, .boot "three" fun _ => false]).store
    (s.nCryptoStore .one).initialized = true ∧ (s.nCryptoStore .two).initialized = true ∧
      ¬DestroysNoKeys Demo.platform "three" (fun call => call = .generatePair) s := by
  intro s
  have hone : (s.nCryptoStore .one).initialized = true := by decide +kernel
  have htwo : (s.nCryptoStore .two).initialized = true := by decide +kernel
  refine ⟨hone, htwo, fun h => ?_⟩
  have hdown : ((stateAfter ((cryptoStoreInit Demo.platform ⟨"three", fun call => call = .generatePair, none⟩).run
      s)).nCryptoStore .two).initialized = false := by decide +kernel
  have hfails : (returned ((cryptoStoreInit Demo.platform ⟨"three", fun call => call = .generatePair, none⟩).run s)).isSome =
      false := by decide +kernel
  cases hrun : (cryptoStoreInit Demo.platform ⟨"three", fun call => call = .generatePair, none⟩).run s with
  | ok a s' =>
    rw [hrun] at hfails
    cases hfails
  | error e s' =>
    rw [hrun, stateAfter, h.failed e s' hrun .two htwo, htwo] at hdown
    cases hdown

end LedgerArweave
