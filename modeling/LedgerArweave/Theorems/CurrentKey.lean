import LedgerArweave.KeySlots
import LedgerArweave.Lifetime
import LedgerArweave.Theorems.ConfirmedAddress

/-!
# The key of the current recovery phrase

Flash may hold the keys of two recovery phrases, and RAM says which slot is in use. Every slot whose flag is up holds the keys
of its seed, and once the device is ready a slot in use whose flag is up has the seed of the recovery phrase of the last boot: a
boot takes such a slot only, and an initialisation that fails leaves the flag of the slot in use down.
-/

namespace LedgerArweave

open Lib

section

variable (P : Platform)

/-- The modulus generated from the master seed of a recovery phrase. -/
def modulusOf (phrase : String) : List UInt8 := (keysOf P (seedOf P phrase)).1.n.1

/-- The address of a recovery phrase. -/
def phraseAddress (phrase : String) : List UInt8 := b64urlText (P.sha256 (modulusOf P phrase)).1

theorem length_phraseAddress (phrase : String) : (phraseAddress P phrase).length = 43 := by
  rw [phraseAddress, length_b64urlText, (P.sha256 (modulusOf P phrase)).2]
  rfl

/-- A step of a device over its life. -/
abbrev LifeStep : Type := Entry Lifetime LifeEvent Output

/-- When `GET_PK` and `GET_ADDR` succeed, they answer the halves of the modulus and the address of the recovery phrase of the
last boot. When the address is to be confirmed, an approval answers it. -/
structure AnswersCurrentKey (e : LifeStep) : Prop where
  firstHalf : ∀ a, e.input = .apdu a → a.byte offsetIns = insGetPk → a.p2 = 0 → Answered apduCodeOk e.output →
    e.output = some ((modulusOf P e.before.phrase).take 256 ++ swBytes apduCodeOk)
  lastHalf : ∀ a, e.input = .apdu a → a.byte offsetIns = insGetPk → a.p2 = 1 → Answered apduCodeOk e.output →
    e.output = some ((modulusOf P e.before.phrase).drop 256 ++ swBytes apduCodeOk)
  address : ∀ a, e.input = .apdu a → a.byte offsetIns = insGetAddr → Answered apduCodeOk e.output →
    e.output = some (phraseAddress P e.before.phrase ++ swBytes apduCodeOk)
  length : (phraseAddress P e.before.phrase).length = 43
  confirmed : ∀ a, e.input = .apdu a → a.byte offsetIns = insGetAddr → e.output = none →
    ∀ salt, (approve P salt e.after.dev).2 = some (phraseAddress P e.before.phrase ++ swBytes apduCodeOk)

namespace CurrentKeyAux

open CrashAux

/-- The slots hold the keys of their seeds, and the one in use, once the device is ready, those of the recovery phrase. -/
structure HoldsKeys (s : Lifetime) : Prop where
  slots : StoreOk P False s.dev.store
  inUse : s.dev.store.deviceInitialized = true → s.dev.store.slot.initialized = true →
    s.dev.store.slot.masterSeed = seedOf P s.phrase

variable {P} {s : Lifetime}

/-- The key in use is that of the recovery phrase. -/
theorem HoldsKeys.rsaPub (h : HoldsKeys P s) (hready : s.dev.store.deviceInitialized = true)
    (hup : s.dev.store.slot.initialized = true) : s.dev.store.slot.rsaPub = (keysOf P (seedOf P s.phrase)).1 := by
  rcases h.slots s.dev.store.slotInUse hup with hkeys | ⟨hno, -⟩
  · have hkeys : (s.dev.store.slot.rsaPub, s.dev.store.slot.rsaPriv) = keysOf P s.dev.store.slot.masterSeed := hkeys
    rw [h.inUse hready hup] at hkeys
    exact congrArg Prod.fst hkeys
  · exact hno.elim

/-! ## What one event keeps -/

/-- Erased flash has no slot whose flag is up. -/
theorem holdsKeys_erased (h : s.dev.store = CryptoStore.erased) : HoldsKeys P s := by
  refine ⟨fun slot => .of_not ?_, fun hready => ?_⟩
  · rw [h]
    rfl
  · rw [h] at hready
    cases hready

/-- An event that leaves the keys alone. -/
theorem holdsKeys_of_keysKept {dev : Device} (h : HoldsKeys P s) (hk : KeysKept s.dev.store dev.store) :
    HoldsKeys P { s with dev := dev } := by
  have hslot : dev.store.slot = s.dev.store.slot := by rw [CryptoStore.slot, CryptoStore.slot, hk.slots, hk.use]
  constructor
  · intro slot
    change SlotOk P False (dev.store.nCryptoStore slot)
    rw [hk.slots]
    exact h.slots slot
  · intro hready hup
    change dev.store.slot.masterSeed = seedOf P s.phrase
    rw [hslot]
    exact h.inUse (hk.ready.symm.trans hready) (by rw [← hslot]; exact hup)

/-- A boot takes a slot only when it has the seed of the recovery phrase. -/
theorem holdsKeys_boot (h : StoreOk P False s.dev.store) (phrase : String) (fails : DeviceCall → Bool) :
    HoldsKeys P ⟨s.dev.boot P ⟨phrase, fails, none⟩, phrase⟩ := by
  obtain ⟨hslots, hselects⟩ := boot_selects (P := P) ⟨phrase, fails, none⟩ s.dev.store
  constructor
  · intro slot
    change SlotOk P False ((boot P ⟨phrase, fails, none⟩ s.dev.store).nCryptoStore slot)
    rw [hslots]
    exact h slot
  · intro hready _
    exact (hselects hready).2

/-- An initialisation leaves the flag of the slot in use down unless the slot has the seed of the recovery phrase. -/
theorem seed_of_initOutcome {env : InitEnv} {store : CryptoStore} {r : EStateM.Result InitStop CryptoStore Unit}
    (h : InitOutcome P env store r) (hup : (stateAfter r).slot.initialized = true) :
    (stateAfter r).slot.masterSeed = seedOf P env.phrase := by
  cases h with
  | found hc => exact (seed_of_choice_use P env hc).2
  | @filled c hc hnot hcalls =>
    change (setSlot (fun _ => keySlotOf P (seedOf P env.phrase)) (c.apply store)).slot.masterSeed = seedOf P env.phrase
    rw [setSlot_slot]
    rfl
  | @failed c f hc hnot hcalls hf =>
    change (setSlot f (c.apply store)).slot.initialized = true at hup
    rw [setSlot_slot, hf] at hup
    cases hup

theorem holdsKeys_storeInit (h : HoldsKeys P s) (fails : DeviceCall → Bool) :
    HoldsKeys P { s with dev := s.dev.storeInit P ⟨s.phrase, fails, none⟩ } := by
  have hsafe : Safe False ⟨s.phrase, fails, none⟩ := ⟨nofun, nofun, fun _ => nofun, fun _ => nofun⟩
  exact ⟨(keeps_cryptoStoreInit_storeOk hsafe).stateAfter h.slots,
    fun _ hup => seed_of_initOutcome (initOutcome P _ rfl s.dev.store) hup⟩

theorem holdsKeys_step (h : HoldsKeys P s) (ev : LifeEvent) : HoldsKeys P (s.step P ev).1 := by
  cases ev with
  | boot phrase fails => exact holdsKeys_boot h.slots phrase fails
  | storeInit fails => exact holdsKeys_storeInit h fails
  | apdu a => exact holdsKeys_of_keysKept h (step_keys P nofun)
  | addressHashFails => exact holdsKeys_of_keysKept h (.refl _)
  | approve salt => exact holdsKeys_of_keysKept h (step_keys P nofun)
  | reject => exact holdsKeys_of_keysKept h (step_keys P nofun)
  | setExpert on => exact holdsKeys_of_keysKept h (step_keys P nofun)
  | setPin validated => exact holdsKeys_of_keysKept h (step_keys P nofun)

/-! ## What the readers answer -/

/-- A half of the key is answered when the slot in use is initialised, and it is that of its modulus. -/
theorem getPk_answer {d : Device} {a : Apdu} (hins : a.byte offsetIns = insGetPk) (hok : Answered apduCodeOk (receive P a d).2) :
    d.store.deviceInitialized = true ∧ d.store.slot.initialized = true ∧
      (receive P a d).2 = some (slice d.store.slot.rsaPub.n.1 (a.p2.toNat * rsaModulusHalve) rsaModulusHalve ++
        swBytes apduCodeOk) := by
  have he := receive_effect P d a
  generalize (receive P a d).1 = d' at he
  generalize (receive P a d).2 = o at he hok ⊢
  cases he with
  | refused _ _ hsw => exact absurd hok (Answered.not_ok hsw.1 hsw.2)
  | pkRefused _ hsw => rcases hsw with rfl | rfl <;> exact absurd hok (Answered.not_ok (by decide) (by decide))
  | pk h _ hk =>
    rw [cryptoGetpubkeyPart_eq d.store (by decide)] at hk
    split at hk
    · rename_i hup
      split at hk
      · cases hk
      · cases hk
        exact ⟨h.ready, hup, rfl⟩
    · cases hk
  | version hi => exact absurd (hi.symm.trans hins) (by decide)
  | addressRefused h | address h | addressReview h | sigRefused h | sig h | sign h =>
    exact absurd (h.ins.symm.trans hins) (by decide)

/-- The address is answered when the slot in use is initialised, and it is that of its key; or its review is opened. -/
theorem getAddr_answer {d : Device} {a : Apdu} (hins : a.byte offsetIns = insGetAddr)
    (hok : Answered apduCodeOk (receive P a d).2 ∨ (receive P a d).2 = none) :
    d.store.deviceInitialized = true ∧ d.store.slot.initialized = true ∧
      ((receive P a d).2 = some (addressOf P d.store.slot.rsaPub ++ swBytes apduCodeOk) ∨
        (receive P a d).2 = none ∧ AsksForReview d a ∧ (receive P a d).1.review = some .address ∧
          (receive P a d).1.store = d.store) := by
  have up : ∀ {addrStr}, cryptoFillAddress P d.store (ioApduBufferSize - 2) = .ok addrStr →
      d.store.slot.initialized = true ∧ addrStr = addressOf P d.store.slot.rsaPub := by
    intro addrStr ha
    rw [cryptoFillAddress_eq P d.store (by decide)] at ha
    split at ha
    · rename_i hup
      cases ha
      exact ⟨hup, rfl⟩
    · cases ha
  have refused : ∀ {sw : StatusWord}, sw ≠ apduCodeOk → sw < 0x10000 →
      ¬(Answered apduCodeOk (some (swBytes sw)) ∨ some (swBytes sw) = none) :=
    fun hne hlt h => h.elim (Answered.not_ok hne hlt) nofun
  have he := receive_effect P d a
  generalize (receive P a d).1 = d' at he ⊢
  generalize (receive P a d).2 = o at he hok ⊢
  cases he with
  | refused _ _ hsw => exact absurd hok (refused hsw.1 hsw.2)
  | addressRefused _ hsw => rcases hsw with rfl | rfl <;> exact absurd hok (refused (by decide) (by decide))
  | address h _ _ ha =>
    obtain ⟨hup, rfl⟩ := up ha
    refine ⟨h.ready, hup, Or.inl ?_⟩
    rw [← length_addressOf P d.store.slot.rsaPub, take_patch_zero]
  | addressReview h hlc hp1 ha => exact ⟨h.ready, (up ha).1, Or.inr ⟨rfl, ⟨h, hlc, hp1⟩, rfl, rfl⟩⟩
  | version hi => exact absurd (hi.symm.trans hins) (by decide)
  | pkRefused h | pk h | sigRefused h | sig h | sign h => exact absurd (h.ins.symm.trans hins) (by decide)

/-- The address of the key in use is that of the recovery phrase. -/
theorem HoldsKeys.addressOf_eq (hsize : ∀ pq, (P.generatePair pq).1.size = 512) (h : HoldsKeys P s)
    (hready : s.dev.store.deviceInitialized = true) (hup : s.dev.store.slot.initialized = true) :
    addressOf P s.dev.store.slot.rsaPub = phraseAddress P s.phrase := by
  have hmodulus : (keysOf P (seedOf P s.phrase)).1.modulus = modulusOf P s.phrase := by
    rw [RsaPublicKey.modulus, keysOf, hsize]
    exact List.take_of_length_le (Nat.le_of_eq (keysOf P (seedOf P s.phrase)).1.n.2)
  rw [h.rsaPub hready hup, addressOf, hmodulus, phraseAddress]

/-- What the invariant says of a step. -/
theorem answersCurrentKey_of_holdsKeys (hsize : ∀ pq, (P.generatePair pq).1.size = 512) (h : HoldsKeys P s) (ev : LifeEvent) :
    AnswersCurrentKey P (Entry.ofStep (Lifetime.step P) s ev) := by
  have hlen : (modulusOf P s.phrase).length = 512 := (keysOf P (seedOf P s.phrase)).1.n.2
  constructor
  · rintro a rfl hins hp2 hok
    obtain ⟨hready, hup, ho⟩ := getPk_answer hins hok
    rw [h.rsaPub hready hup, hp2] at ho
    exact ho
  · rintro a rfl hins hp2 hok
    obtain ⟨hready, hup, ho⟩ := getPk_answer hins hok
    rw [h.rsaPub hready hup, hp2] at ho
    have hslice : slice (modulusOf P s.phrase) ((1 : UInt8).toNat * rsaModulusHalve) rsaModulusHalve =
        (modulusOf P s.phrase).drop 256 := List.take_of_length_le (by rw [List.length_drop, hlen]; decide)
    rw [← modulusOf, hslice] at ho
    exact ho
  · rintro a rfl hins hok
    obtain ⟨hready, hup, ho | ⟨ho, -⟩⟩ := getAddr_answer hins (Or.inl hok)
    · rw [h.addressOf_eq hsize hready hup] at ho
      exact ho
    · obtain ⟨body, hbody⟩ := hok
      exact absurd (ho.symm.trans hbody) nofun
  · exact length_phraseAddress P s.phrase
  · rintro a rfl hins hnone salt
    obtain ⟨hready, hup, ho | ⟨-, hasks, hreview, hstore⟩⟩ := getAddr_answer hins (Or.inr hnone)
    · exact absurd (ho.symm.trans hnone) nofun
    · have hshows := ConfirmedAddressAux.showsAddress_of_inBuffer P hreview
        (ConfirmedAddressAux.receive_asksForReview P hasks hup)
      have hreply := hshows.reply salt
      rw [hstore, h.addressOf_eq hsize hready hup] at hreply
      exact hreply

end CurrentKeyAux

open CurrentKeyAux

/-- In every run of boots with any recovery phrases, initialisations with any failing calls, commands and approvals, from erased
flash, `GET_PK` and `GET_ADDR` answer the key of the recovery phrase of the current boot when they succeed. -/
theorem answers_current_key (hsize : ∀ pq, (P.generatePair pq).1.size = 512) (s₀ : Lifetime)
    (h₀ : s₀.dev.store = CryptoStore.erased) (tr : List LifeStep) (s : Lifetime) (h : Run (Lifetime.step P) s₀ tr s) :
    ∀ e ∈ tr, AnswersCurrentKey P e := by
  intro e he
  obtain ⟨pre, post, rfl⟩ := List.append_of_mem he
  obtain ⟨hrun, hstep⟩ := h.split rfl
  have hholds : HoldsKeys P e.before :=
    hrun.history (fun _ s => HoldsKeys P s) (holdsKeys_erased h₀) fun _ _ ev _ hs => holdsKeys_step hs ev
  rw [hstep]
  exact answersCurrentKey_of_holdsKeys hsize hholds e.input

end

/-- A device initialised for one recovery phrase and then, after a first attempt that fails, for another. -/
theorem answers_current_key_two_phrases :
    let is : List LifeEvent := [.boot "abandon" fun _ => false, .storeInit fun _ => false, .apdu (Demo.apdu insGetPk 0 0 []),
      .apdu (Demo.apdu insGetPk 0 1 []), .apdu (Demo.apdu insGetAddr 0 0 []), .boot "zoo" fun _ => false,
      .storeInit fun call => call = .generatePair, .apdu (Demo.apdu insGetAddr 0 0 []), .storeInit fun _ => false,
      .apdu (Demo.apdu insGetAddr 0 0 [])]
    let tr := trace (Lifetime.step Demo.platform) ⟨{ Demo.device 0 with store := CryptoStore.erased }, ""⟩ is
    tr.map (fun e => e.output.map List.length) =
        [none, none, some 258, some 258, some 45, none, none, some 2, none, some 45] ∧
      phraseAddress Demo.platform "abandon" ≠ phraseAddress Demo.platform "zoo" ∧
      ∀ e ∈ tr, AnswersCurrentKey Demo.platform e := by
  intro is tr
  refine ⟨by decide +kernel, by decide +kernel, ?_⟩
  exact answers_current_key Demo.platform (fun _ => rfl) _ rfl tr _ (run_trace _ _ is)

end LedgerArweave
