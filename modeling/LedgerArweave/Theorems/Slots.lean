import LedgerArweave.KeySlots

/-!
# Slots that stay

A boot and an initialisation take the same slot. As long as there are two recovery phrases at most and their seeds can be
derived, the initialisation never erases a slot, and a slot that was filled stays as it is: the second slot is filled only when
the first one holds another seed.
-/

namespace LedgerArweave

open Lib

section

variable (P : Platform)

/-- The seed of the recovery phrase can be derived whenever it is compared with a slot. -/
def SeedsCompared (fails : DeviceCall → Bool) : Prop := ∀ slot, fails (.sameMasterseed slot) = false

/-- `crypto_store_init` returns `zxerr_ok` and comes to no flash write. -/
structure ReturnsUnwritten (phrase : String) (fails : DeviceCall → Bool) (s : CryptoStore) : Prop where
  returns : ∃ s', (cryptoStoreInit P ⟨phrase, fails, none⟩).run s = .ok () s'
  unwritten : ∀ site s', ¬ReachesWrite P phrase fails s site s'

/-- The slot that a flash write goes to, in the state before the write. -/
def siteSlot (s : CryptoStore) : NvSite → KeySlot
  | .uninitPq slot | .uninitRsaPriv slot | .uninitMasterSeed slot | .uninitInitialized slot => slot
  | .masterSeed | .pq | .initialized | .rsaPub | .rsaPriv => s.slotInUse

/-- The initialisation comes to a write to the slot. -/
def WritesSlot (phrase : String) (fails : DeviceCall → Bool) (s : CryptoStore) (slot : KeySlot) : Prop :=
  ∃ site s', ReachesWrite P phrase fails s site s' ∧ siteSlot s' site = slot

/-- An event that loses no power and compares seeds that can be derived. -/
def PowerEvent.SeedDerived : PowerEvent → Prop
  | .boot _ fails => SeedsCompared fails
  | .storeInit fails powerLoss => SeedsCompared fails ∧ powerLoss = none

/-- A boot takes place with one of two recovery phrases. -/
def PowerEvent.OneOf (A B : String) : PowerEvent → Prop
  | .boot phrase _ => phrase = A ∨ phrase = B
  | .storeInit _ _ => True

/-- `crypto_store_init` returned `zxerr_ok`. -/
def InitReturned (e : Entry Powered PowerEvent (Option Bool)) : Prop :=
  e.before.on = true ∧ ∃ fails s', e.input = .storeInit fails none ∧
    (cryptoStoreInit P ⟨e.before.phrase, fails, none⟩).run e.before.store = .ok () s'

/-- A later event leaves the slot that an initialisation took as it is, and a boot with the same recovery phrase takes it. -/
structure StaysReady (e x : Entry Powered PowerEvent (Option Bool)) : Prop where
  ready : ∀ fails, x.input = .boot e.before.phrase fails →
    x.output = some true ∧ x.after.store.slotInUse = e.after.store.slotInUse
  keys : x.after.store.nCryptoStore e.after.store.slotInUse = e.after.store.slot
  unwritten : ∀ fails, x.input = .storeInit fails none → x.before.on = true →
    ¬WritesSlot P x.before.phrase fails x.before.store e.after.store.slotInUse

namespace SlotsAux

variable {P} {phrase A B : String} {fails fails' : DeviceCall → Bool} {s : CryptoStore}

/-- The tree looks at the seeds only. -/
theorem choice_congr (h : SeedsCompared fails) (h' : SeedsCompared fails') :
    choice P ⟨phrase, fails', none⟩ s = choice P ⟨phrase, fails, none⟩ s := by
  unfold choice sameMasterseed
  simp only [h .one, h .two, h' .one, h' .two]

theorem sameMasterseed_eq (h : SeedsCompared fails) (slot : KeySlot) :
    sameMasterseed P ⟨phrase, fails, none⟩ s slot = ((s.nCryptoStore slot).masterSeed == seedOf P phrase) := by
  simp only [sameMasterseed, h slot, Bool.not_false, Bool.true_and]

/-- A write of `crypto_initialize_slot` goes to the slot in use. -/
theorem siteSlot_of_fill {site : NvSite} {s' : CryptoStore}
    (h : (cryptoInitializeSlot P ⟨phrase, fails, some site⟩).run s = .error .powerLoss s') : siteSlot s' site = s.slotInUse := by
  have hsite : site ∈ fillSites := by
    by_contra hno
    have hpower : PowerHolds ⟨phrase, fails, some site⟩ := by
      intro x hx heq
      cases heq
      exact hno hx
    exact run_cryptoInitializeSlot_ne_powerLoss P hpower s s' h
  have hkeeps : Keeps (fun x => x.slotInUse = s.slotInUse) (cryptoInitializeSlot P ⟨phrase, fails, some site⟩) :=
    keeps_cryptoInitializeSlot P _ (fun _ _ hx => hx) fun _ hx => hx
  have huse := (hkeeps.state rfl).2 _ _ h
  simp only [fillSites, List.mem_cons, List.not_mem_nil, or_false] at hsite
  rcases hsite with rfl | rfl | rfl | rfl | rfl <;> exact huse

/-- The initialisation comes to no write when the tree ends at a slot with the seed. -/
theorem not_reachesWrite_of_use {slot : KeySlot} (hc : choice P ⟨phrase, fails, none⟩ s = .use slot) (site : NvSite)
    (s' : CryptoStore) : ¬ReachesWrite P phrase fails s site s' := by
  intro h
  rw [ReachesWrite, run_cryptoStoreInit, choice_powerLoss, hc] at h
  cases h

/-- It returns without a write only there. -/
theorem use_of_returnsUnwritten (h : ReturnsUnwritten P phrase fails s) :
    ∃ slot, choice P ⟨phrase, fails, none⟩ s = .use slot := by
  cases hc : choice P ⟨phrase, fails, none⟩ s with
  | use slot => exact ⟨slot, rfl⟩
  | fill slot =>
    -- the seed is derived, and storing it is the first write
    have hseed : fails .deriveMasterSeed = false := by
      obtain ⟨s', hrun⟩ := h.returns
      have hout := initOutcome P ⟨phrase, fails, none⟩ rfl s
      rw [hrun] at hout
      cases hout with
      | found hc' => exact absurd (hc.symm.trans hc') nofun
      | filled _ _ hcalls =>
        simp only [callsSucceed, Bool.and_eq_true, Bool.not_eq_true'] at hcalls
        exact hcalls.1.1.1.1.1
    refine absurd ?_ (h.unwritten .masterSeed { s with slotInUse := slot })
    rw [ReachesWrite, run_cryptoStoreInit, choice_powerLoss, hc]
    simp only
    rw [cryptoInitializeSlot, run_bind, cryptoDeriveMasterSeed, run_bind, run_deviceCall]
    simp only [hseed, Bool.false_eq_true, if_false]
    rw [run_nvWrite_of_loss rfl]
  | evict =>
    refine absurd ?_ (h.unwritten (.uninitPq .one) s)
    rw [ReachesWrite, run_cryptoStoreInit, choice_powerLoss, hc]
    simp only
    refine run_bind_of_error ?_ _
    rw [cryptoUninitializedSlot]
    exact run_bind_of_error (run_nvWrite_of_loss rfl _ s) _

/-- The two trees agree. -/
theorem initTest_iff (h : SeedsCompared fails) (h' : SeedsCompared fails') :
    ((cryptoStoreInitTest P ⟨phrase, fails, none⟩ s).1 = true ↔ ReturnsUnwritten P phrase fails' s) ∧
      ((cryptoStoreInitTest P ⟨phrase, fails, none⟩ s).1 = true →
        (cryptoStoreInitTest P ⟨phrase, fails, none⟩ s).2.slotInUse =
          (stateAfter ((cryptoStoreInit P ⟨phrase, fails', none⟩).run s)).slotInUse) := by
  have hsame : choice P ⟨phrase, fails', none⟩ s = choice P ⟨phrase, fails, none⟩ s := choice_congr h h'
  have huse : (cryptoStoreInitTest P ⟨phrase, fails, none⟩ s).1 = true →
      ∃ slot, choice P ⟨phrase, fails, none⟩ s = .use slot := by
    intro htest
    rw [cryptoStoreInitTest_eq] at htest
    cases hc : choice P ⟨phrase, fails, none⟩ s with
    | use slot => exact ⟨slot, rfl⟩
    | fill slot =>
      rw [hc] at htest
      cases htest
    | evict =>
      rw [hc] at htest
      cases htest
  refine ⟨⟨fun htest => ?_, fun hr => ?_⟩, fun htest => ?_⟩
  · obtain ⟨slot, hc⟩ := huse htest
    rw [← hsame] at hc
    refine ⟨⟨{ s with slotInUse := slot }, ?_⟩, not_reachesWrite_of_use hc⟩
    rw [run_cryptoStoreInit, hc]
  · obtain ⟨slot, hc⟩ := use_of_returnsUnwritten hr
    rw [hsame] at hc
    rw [cryptoStoreInitTest_eq, hc]
  · obtain ⟨slot, hc⟩ := huse htest
    rw [cryptoStoreInitTest_eq, run_cryptoStoreInit, hsame, hc]
    rfl

/-! ### Two recovery phrases -/

/-- The slots hold seeds of two recovery phrases, and the second one is filled behind the first, with another seed. -/
structure TwoSeeds (P : Platform) (A B : String) (s : CryptoStore) : Prop where
  seeds : ∀ slot, (s.nCryptoStore slot).initialized = true →
    (s.nCryptoStore slot).masterSeed = seedOf P A ∨ (s.nCryptoStore slot).masterSeed = seedOf P B
  order : (s.nCryptoStore .two).initialized = true →
    (s.nCryptoStore .one).initialized = true ∧ (s.nCryptoStore .one).masterSeed ≠ (s.nCryptoStore .two).masterSeed

/-- One of the two slots holds the seed when both are filled. -/
theorem choice_ne_evict (h : TwoSeeds P A B s) (hphrase : phrase = A ∨ phrase = B) (hseeds : SeedsCompared fails) :
    choice P ⟨phrase, fails, none⟩ s ≠ .evict := by
  intro hc
  have he := choice_eq_evict_iff.1 hc
  have other : ∀ slot, (s.nCryptoStore slot).masterSeed ≠ seedOf P phrase := by
    intro slot heq
    have hno := (he slot).2
    rw [sameMasterseed_eq hseeds, heq, beq_self_eq_true] at hno
    cases hno
  have hdiffer := (h.order (he .two).1).2
  rcases hphrase with rfl | rfl
  · have h1 := (h.seeds .one (he .one).1).resolve_left (other .one)
    have h2 := (h.seeds .two (he .two).1).resolve_left (other .two)
    exact hdiffer (h1.trans h2.symm)
  · have h1 := (h.seeds .one (he .one).1).resolve_right (other .one)
    have h2 := (h.seeds .two (he .two).1).resolve_right (other .two)
    exact hdiffer (h1.trans h2.symm)

/-- What the initialisation leaves in a slot that was not initialised: nothing initialised, or the seed of the recovery phrase,
which no other slot holds. -/
theorem new_slot (hc : choice P ⟨phrase, fails, none⟩ s ≠ .evict) (hseeds : SeedsCompared fails) {slot : KeySlot}
    (hdown : (s.nCryptoStore slot).initialized = false)
    (hup : ((stateAfter ((cryptoStoreInit P ⟨phrase, fails, none⟩).run s)).nCryptoStore slot).initialized = true) :
    ((stateAfter ((cryptoStoreInit P ⟨phrase, fails, none⟩).run s)).nCryptoStore slot).masterSeed = seedOf P phrase ∧
      (slot = .two → (s.nCryptoStore .one).initialized = true ∧ (s.nCryptoStore .one).masterSeed ≠ seedOf P phrase) := by
  have hout := initOutcome P ⟨phrase, fails, none⟩ rfl s
  generalize (cryptoStoreInit P ⟨phrase, fails, none⟩).run s = r at hout hup ⊢
  have same : ∀ {c : Choice} {f : CryptoSlot → CryptoSlot}, c ≠ .evict → slot ≠ (c.apply s).slotInUse →
      (setSlot f (c.apply s)).nCryptoStore slot = s.nCryptoStore slot := by
    intro c f hne hslot
    rw [setSlot_ne hslot]
    cases c with
    | evict => exact absurd rfl hne
    | _ => rfl
  have use : ∀ {c : Choice} {f : CryptoSlot → CryptoSlot}, choice P ⟨phrase, fails, none⟩ s = c →
      ((setSlot f (c.apply s)).nCryptoStore slot).initialized = true → slot = (c.apply s).slotInUse := by
    intro c f hc' hup
    by_contra hno
    rw [same (hc' ▸ hc) hno, hdown] at hup
    cases hup
  cases hout with
  | found _ => exact absurd (hdown.symm.trans hup) nofun
  | @filled c hc' hnot _ =>
    have hslot := use (f := fun _ => keySlotOf P (seedOf P phrase)) hc' hup
    refine ⟨?_, fun htwo => ?_⟩
    · rw [hslot]
      change (setSlot (fun _ => keySlotOf P (seedOf P phrase)) (c.apply s)).slot.masterSeed = seedOf P phrase
      rw [setSlot_slot]
      rfl
    · rcases choice_cases P ⟨phrase, fails, none⟩ s with ⟨h, -⟩ | ⟨h, -⟩ | ⟨h, h1, h2, -⟩ | ⟨h, -⟩ | ⟨h, -⟩
      · rw [← hc', h, htwo] at hslot
        cases hslot
      · exact absurd (hc'.symm.trans h) (hnot _)
      · refine ⟨h1, fun heq => ?_⟩
        rw [sameMasterseed_eq hseeds, heq, beq_self_eq_true] at h2
        cases h2
      · exact absurd (hc'.symm.trans h) (hnot _)
      · exact absurd h hc
  | @failed c f hc' _ _ hf =>
    have hslot := use hc' hup
    rw [hslot] at hup
    change (setSlot f (c.apply s)).slot.initialized = true at hup
    rw [setSlot_slot, hf] at hup
    cases hup

theorem twoSeeds_storeInit (h : TwoSeeds P A B s) (hphrase : phrase = A ∨ phrase = B) (hseeds : SeedsCompared fails) :
    TwoSeeds P A B (stateAfter ((cryptoStoreInit P ⟨phrase, fails, none⟩).run s)) := by
  have hc := choice_ne_evict h hphrase hseeds
  constructor
  · intro slot hup
    cases hs : (s.nCryptoStore slot).initialized with
    | true =>
      rw [kept_of_ne_evict rfl hc hs]
      exact h.seeds slot hs
    | false =>
      rw [(new_slot hc hseeds hs hup).1]
      exact hphrase.imp (congrArg (seedOf P)) (congrArg (seedOf P))
  · intro hup
    cases hs : (s.nCryptoStore .two).initialized with
    | true =>
      obtain ⟨hone, hdiffer⟩ := h.order hs
      rw [kept_of_ne_evict rfl hc hs, kept_of_ne_evict rfl hc hone]
      exact ⟨hone, hdiffer⟩
    | false =>
      obtain ⟨hseed, hone⟩ := new_slot hc hseeds hs hup
      rw [kept_of_ne_evict rfl hc (hone rfl).1, hseed]
      exact hone rfl

/-! ### Runs -/

theorem step_storeInit {s : Powered} (hon : s.on = true) (fails : DeviceCall → Bool) :
    s.step P (.storeInit fails none) =
      ({ s with store := stateAfter ((cryptoStoreInit P ⟨s.phrase, fails, none⟩).run s.store) }, none) := by
  have hout := initOutcome P ⟨s.phrase, fails, none⟩ rfl s.store
  rw [Powered.step, if_pos hon]
  generalize (cryptoStoreInit P ⟨s.phrase, fails, none⟩).run s.store = r at hout
  cases hout <;> rfl

/-- The device of two recovery phrases. -/
structure Steady (P : Platform) (A B : String) (s : Powered) : Prop where
  phrase : s.on = true → s.phrase = A ∨ s.phrase = B
  store : TwoSeeds P A B s.store

/-- What one event keeps. -/
theorem steady_step {s : Powered} (h : Steady P A B s) {ev : PowerEvent} (hd : ev.SeedDerived) (hone : ev.OneOf A B) :
    Steady P A B (s.step P ev).1 := by
  cases ev with
  | boot phrase fails =>
    have hslots := (CrashAux.boot_selects (P := P) ⟨phrase, fails, none⟩ s.store).1
    refine ⟨fun _ => hone, ?_⟩
    change TwoSeeds P A B (boot P ⟨phrase, fails, none⟩ s.store)
    constructor
    · rw [hslots]
      exact h.store.seeds
    · rw [hslots]
      exact h.store.order
  | storeInit fails powerLoss =>
    obtain ⟨hseeds, rfl⟩ := hd
    cases hon : s.on with
    | false =>
      rw [Powered.step, hon]
      exact h
    | true =>
      rw [step_storeInit hon]
      exact ⟨fun _ => h.phrase hon, twoSeeds_storeInit h.store (h.phrase hon) hseeds⟩

/-- A slot that an initialisation took is as it was then: initialised, with the seed of the recovery phrase of that time. -/
structure Held (P : Platform) (e : Entry Powered PowerEvent (Option Bool)) (s : CryptoStore) : Prop where
  slot : s.nCryptoStore e.after.store.slotInUse = e.after.store.slot
  up : e.after.store.slot.initialized = true
  seed : e.after.store.slot.masterSeed = seedOf P e.before.phrase

/-- A slot is taken or filled with the seed of the recovery phrase. -/
theorem held_of_returned {s : Powered} {ev : PowerEvent} (h : InitReturned P (Entry.ofStep (Powered.step P) s ev)) :
    Held P (Entry.ofStep (Powered.step P) s ev) (s.step P ev).1.store := by
  obtain ⟨hon, fails, s', rfl, hrun⟩ := h
  change s.on = true at hon
  change (cryptoStoreInit P ⟨s.phrase, fails, none⟩).run s.store = .ok () s' at hrun
  have hafter : (s.step P (.storeInit fails none)).1.store = s' := by rw [step_storeInit hon, hrun, stateAfter]
  have hslot : s'.slot.initialized = true ∧ s'.slot.masterSeed = seedOf P s.phrase := by
    have hout := initOutcome P ⟨s.phrase, fails, none⟩ rfl s.store
    rw [hrun] at hout
    cases hout with
    | @found slot hc => exact seed_of_choice_use P _ hc
    | @filled c hc hnot hcalls =>
      change (setSlot (fun _ => keySlotOf P (seedOf P s.phrase)) (c.apply s.store)).slot.initialized = true ∧
        (setSlot (fun _ => keySlotOf P (seedOf P s.phrase)) (c.apply s.store)).slot.masterSeed = seedOf P s.phrase
      rw [setSlot_slot]
      exact ⟨rfl, rfl⟩
  rw [← hafter] at hslot
  exact ⟨rfl, hslot.1, hslot.2⟩

/-- A slot that is held stays. -/
theorem held_step {e : Entry Powered PowerEvent (Option Bool)} {s : Powered} (h : Held P e s.store) (hs : Steady P A B s)
    {ev : PowerEvent} (hd : ev.SeedDerived) : Held P e (s.step P ev).1.store := by
  refine ⟨?_, h.up, h.seed⟩
  cases ev with
  | boot phrase fails =>
    change (boot P ⟨phrase, fails, none⟩ s.store).nCryptoStore e.after.store.slotInUse = e.after.store.slot
    rw [(CrashAux.boot_selects (P := P) ⟨phrase, fails, none⟩ s.store).1]
    exact h.slot
  | storeInit fails powerLoss =>
    obtain ⟨hseeds, rfl⟩ := hd
    cases hon : s.on with
    | false =>
      rw [Powered.step, hon]
      exact h.slot
    | true =>
      rw [step_storeInit hon]
      have hc := choice_ne_evict hs.store (hs.phrase hon) hseeds
      exact (kept_of_ne_evict rfl hc (by rw [h.slot]; exact h.up)).trans h.slot

/-- What a run from erased flash keeps, and that every slot an initialisation took is held. -/
theorem steady_run {phrase₀ : String} {tr : List (Entry Powered PowerEvent (Option Bool))} {s : Powered}
    (h : Run (Powered.step P) ⟨CryptoStore.erased, phrase₀, false⟩ tr s) (hd : ∀ x ∈ tr, x.input.SeedDerived)
    (hone : ∀ x ∈ tr, x.input.OneOf A B) :
    Steady P A B s ∧ ∀ pre e post, tr = pre ++ e :: post → InitReturned P e → Held P e s.store := by
  refine h.history_of (fun tr s => Steady P A B s ∧ ∀ pre e post, tr = pre ++ e :: post → InitReturned P e → Held P e s.store)
    (c := fun e => e.input.SeedDerived ∧ e.input.OneOf A B) ?_ ?_ fun x hx => ⟨hd x hx, hone x hx⟩
  · refine ⟨⟨nofun, nofun, nofun⟩, ?_⟩
    intro pre e post htr
    simp at htr
  · intro tr s ev _ ⟨hsteady, hheld⟩ ⟨hd', hone'⟩
    refine ⟨steady_step hsteady hd' hone', ?_⟩
    intro pre e post htr hreturned
    rcases List.eq_nil_or_concat post with rfl | ⟨post, x, rfl⟩
    · obtain ⟨-, he⟩ := List.append_inj' htr rfl
      cases he
      exact held_of_returned hreturned
    · rw [List.concat_eq_append, ← List.cons_append, ← List.append_assoc] at htr
      exact held_step (hheld pre e post (List.append_inj' htr rfl).1 hreturned) hsteady hd'

/-- A boot with the recovery phrase of a slot that is held takes that slot. -/
theorem choice_of_held {e : Entry Powered PowerEvent (Option Bool)} {s : CryptoStore} (h : Held P e s)
    (hs : TwoSeeds P A B s) (hseeds : SeedsCompared fails) :
    choice P ⟨e.before.phrase, fails, none⟩ s = .use e.after.store.slotInUse := by
  have hup : (s.nCryptoStore e.after.store.slotInUse).initialized = true := h.slot ▸ h.up
  have hseed : (s.nCryptoStore e.after.store.slotInUse).masterSeed = seedOf P e.before.phrase := h.slot ▸ h.seed
  have hsame : sameMasterseed P ⟨e.before.phrase, fails, none⟩ s e.after.store.slotInUse = true := by
    rw [sameMasterseed_eq hseeds, hseed, beq_self_eq_true]
  generalize e.after.store.slotInUse = slot at hup hseed hsame
  cases slot with
  | one =>
    simp only [choice, cryptoStoreSlotIsInitialized, hup, hsame, Bool.not_true, Bool.false_eq_true, if_false, if_true]
  | two =>
    obtain ⟨hone, hdiffer⟩ := hs.order hup
    have hother : sameMasterseed P ⟨e.before.phrase, fails, none⟩ s .one = false := by
      rw [sameMasterseed_eq hseeds]
      exact beq_eq_false_iff_ne.2 fun heq => hdiffer (heq.trans hseed.symm)
    simp only [choice, cryptoStoreSlotIsInitialized, hup, hsame, hone, hother, Bool.not_true, Bool.false_eq_true, if_false,
      if_true]

/-- A slot that is held is not written. -/
theorem not_writesSlot_of_held {e : Entry Powered PowerEvent (Option Bool)} {s : CryptoStore} (h : Held P e s)
    (hs : TwoSeeds P A B s) (hphrase : phrase = A ∨ phrase = B) (hseeds : SeedsCompared fails) :
    ¬WritesSlot P phrase fails s e.after.store.slotInUse := by
  rintro ⟨site, s', hwrite, hslot⟩
  cases hc : choice P ⟨phrase, fails, none⟩ s with
  | use slot => exact not_reachesWrite_of_use hc site s' hwrite
  | fill slot =>
    rw [ReachesWrite, run_cryptoStoreInit, choice_powerLoss, hc] at hwrite
    have hfill := siteSlot_of_fill hwrite
    have hdown := apply_down P _ hc nofun
    change (s.nCryptoStore slot).initialized = false at hdown
    rw [hslot] at hfill
    change e.after.store.slotInUse = slot at hfill
    rw [← hfill, h.slot, h.up] at hdown
    cases hdown
  | evict => exact choice_ne_evict hs hphrase hseeds hc

end SlotsAux

open SlotsAux

/-- Slot selection at boot and at initialisation.
1. For every flash content and recovery phrase whose seed can be derived, `crypto_store_init_test` returns true exactly when
`crypto_store_init` returns `zxerr_ok` without a write to flash, and both select the same slot.
2. In every run from erased flash with two recovery phrases at most, once `crypto_store_init` returned `zxerr_ok`, every later
boot with that recovery phrase takes that slot, with the same keys, and no later initialisation writes to it. -/
theorem slot_selection_stable :
    (∀ (phrase : String) (fails fails' : DeviceCall → Bool) (s : CryptoStore), SeedsCompared fails → SeedsCompared fails' →
      ((cryptoStoreInitTest P ⟨phrase, fails, none⟩ s).1 = true ↔ ReturnsUnwritten P phrase fails' s) ∧
        ((cryptoStoreInitTest P ⟨phrase, fails, none⟩ s).1 = true →
          (cryptoStoreInitTest P ⟨phrase, fails, none⟩ s).2.slotInUse =
            (stateAfter ((cryptoStoreInit P ⟨phrase, fails', none⟩).run s)).slotInUse)) ∧
    (∀ (A B phrase₀ : String) (tr : List (Entry Powered PowerEvent (Option Bool))) (s : Powered),
      Run (Powered.step P) ⟨CryptoStore.erased, phrase₀, false⟩ tr s → (∀ x ∈ tr, x.input.SeedDerived) →
      (∀ x ∈ tr, x.input.OneOf A B) →
      ∀ pre e post, tr = pre ++ e :: post → InitReturned P e → ∀ x ∈ post, StaysReady P e x) := by
  refine ⟨fun phrase fails fails' s h h' => initTest_iff h h', ?_⟩
  rintro A B phrase₀ tr s h hd hone pre e post rfl hreturned x hx
  obtain ⟨post₁, post₂, rfl⟩ := List.append_of_mem hx
  have hsplit : pre ++ e :: (post₁ ++ x :: post₂) = (pre ++ e :: post₁) ++ x :: post₂ := by simp
  rw [hsplit] at h hd hone
  obtain ⟨hrun, hstep⟩ := h.split rfl
  obtain ⟨hsteady, hall⟩ := steady_run hrun (fun y hy => hd y (List.mem_append_left _ hy)) fun y hy =>
    hone y (List.mem_append_left _ hy)
  have hheld := hall pre e post₁ rfl hreturned
  have hdx : x.input.SeedDerived := hd x (by simp)
  constructor
  · intro fails hinput
    rw [hinput] at hdx hstep
    have hreset : Held P e x.before.store.reset := ⟨hheld.slot, hheld.up, hheld.seed⟩
    have htwo : TwoSeeds P A B x.before.store.reset := ⟨hsteady.store.seeds, hsteady.store.order⟩
    have htest : cryptoStoreInitTest P ⟨e.before.phrase, fails, none⟩ x.before.store.reset =
        (true, { x.before.store.reset with slotInUse := e.after.store.slotInUse }) := by
      rw [cryptoStoreInitTest_eq, choice_of_held hreset htwo hdx]
    rw [hstep]
    constructor
    · change some (cryptoStoreInitTest P ⟨e.before.phrase, fails, none⟩ x.before.store.reset).1 = some true
      rw [htest]
    · change (boot P ⟨e.before.phrase, fails, none⟩ x.before.store).slotInUse = e.after.store.slotInUse
      rw [boot, htest]
  · rw [hstep]
    exact (held_step hheld hsteady hdx).slot
  · intro fails hinput hon
    rw [hinput] at hdx
    exact not_writesSlot_of_held hheld hsteady.store (hsteady.phrase hon) hdx.1

end

/-- Two recovery phrases in turn: the first one finds its slot again, and initialising it once more writes nothing. -/
theorem slot_selection_stable_two_phrases :
    let succeed : DeviceCall → Bool := fun _ => false
    let start : Powered := ⟨CryptoStore.erased, "", false⟩
    let is : List PowerEvent := [.boot "one" succeed, .storeInit succeed none, .boot "two" succeed, .storeInit succeed none,
      .boot "one" succeed]
    let tr := trace (Powered.step Demo.platform) start is
    let s := (final (Powered.step Demo.platform) start is).store
    tr.map Entry.output = [some false, none, some false, none, some true] ∧
      (∃ e x, tr[1]? = some e ∧ tr[4]? = some x ∧ StaysReady Demo.platform e x) ∧
      ReturnsUnwritten Demo.platform "one" succeed s := by
  intro succeed start is tr s
  have houtputs : tr.map Entry.output = [some false, none, some false, none, some true] := by decide +kernel
  have hderived : ∀ x ∈ tr, x.input.SeedDerived := by
    simp only [tr, is, trace, List.forall_mem_cons, List.not_mem_nil, false_implies, implies_true, and_true]
    exact ⟨fun _ => rfl, ⟨fun _ => rfl, rfl⟩, fun _ => rfl, ⟨fun _ => rfl, rfl⟩, fun _ => rfl⟩
  have hone : ∀ x ∈ tr, x.input.OneOf "one" "two" := by
    simp only [tr, is, trace, List.forall_mem_cons, List.not_mem_nil, false_implies, implies_true, and_true]
    exact ⟨Or.inl rfl, trivial, Or.inr rfl, trivial, Or.inl rfl⟩
  have hstable := slot_selection_stable Demo.platform
  let e := Entry.ofStep (Powered.step Demo.platform) (final (Powered.step Demo.platform) start [.boot "one" succeed])
    (.storeInit succeed none)
  let x := Entry.ofStep (Powered.step Demo.platform) (final (Powered.step Demo.platform) start (is.take 4))
    (.boot "one" succeed)
  have hreturned : InitReturned Demo.platform e := by
    have hsome : (returned ((cryptoStoreInit Demo.platform ⟨"one", succeed, none⟩).run e.before.store)).isSome = true := by
      decide +kernel
    refine ⟨rfl, succeed, ?_⟩
    cases hrun : (cryptoStoreInit Demo.platform ⟨"one", succeed, none⟩).run e.before.store with
    | ok a s' => exact ⟨s', rfl, hrun⟩
    | error err s' =>
      rw [hrun] at hsome
      cases hsome
  have hlast : x ∈ tr.drop 2 := by
    simp only [tr, is, trace, List.drop_succ_cons, List.drop_zero, List.mem_cons]
    exact Or.inr (Or.inr (Or.inl rfl))
  refine ⟨houtputs, ⟨e, x, rfl, rfl, ?_⟩,
    (hstable.1 "one" succeed succeed s (fun _ => rfl) fun _ => rfl).1.1 (by decide +kernel)⟩
  exact hstable.2 "one" "two" "" tr _ (run_trace _ start is) hderived hone (tr.take 1) e (tr.drop 2) rfl hreturned x hlast

end LedgerArweave
