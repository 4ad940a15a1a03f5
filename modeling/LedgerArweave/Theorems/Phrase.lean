import LedgerArweave.Theorems.Genuine
import LedgerArweave.Theorems.Wallet

/-!
# The wallet of a recovery phrase

A recovery phrase is a wallet. Whatever a device lived through, with other phrases, calls that failed and losses of power that
leave no key half written, once it is switched on with a phrase an application finds the wallet of this phrase: the address, the
key and the signatures are settled by the phrase, and only the mode, the lock and the size of the buffer by the device.
-/

namespace LedgerArweave

open Lib

section

variable (P : Platform)

/-- `main`: the boot, and the initialisation when the boot found no key; every call succeeds. -/
def switchOn (phrase : String) (s : Lifetime) : Lifetime :=
  let booted := (s.step P (.boot phrase fun _ => false)).1
  if booted.dev.store.deviceInitialized then booted else (booted.step P (.storeInit fun _ => false)).1

/-- The wallet of a recovery phrase, on a device in a mode, locked or not, with a buffer of a size. -/
def phraseWallet (H : List UInt8 → ByteArr 48) (bufferTob64Url : List UInt8 → String) (phrase : String)
    (expert pinValidated : Bool) (capacity : Nat) : Wallet where
  closed := if pinValidated then none else some (answeredSw P.pinCode)
  versionBytes := P.version.1
  version := firmwareVersion P
  address := toAscii (phraseAddress P phrase)
  modulus := (keysOf P (seedOf P phrase)).1.n
  owner := bufferTob64Url (modulusOf P phrase)
  Accepts tx := tx.Acceptable ∧ (encodeTx tx).length ≤ capacity ∧ tx.owner = modulusOf P phrase ∧
    (tx.target ≠ [] ∧ tx.target.length ≤ 150) ∧ QuantityRenders P tx.quantity ∧ (tx.lastTx ≠ [] ∧ tx.lastTx.length ≤ 150) ∧
    (expert = true → tx.ShownInExpert)
  deepHash tx := (Lib.deepHash H tx.tree).1
  Signature digest sig := ∃ salt, P.rsaSign (keysOf P (seedOf P phrase)).2 salt (P.sha256 digest) = some sig

end

namespace PhraseAux

open CurrentKeyAux CrashAux ExchangeAux GenuineAux WalletAux

section

variable {P : Platform} {s : Lifetime} (phrase : String)

/-! ## Switching a device on -/

/-- Every call succeeds, and the power holds. -/
abbrev calm : InitEnv := ⟨phrase, fun _ => false, none⟩

/-- A device that was switched on is ready, with an initialised slot in use and no signature that waits. -/
structure Ready (s : Lifetime) : Prop where
  ready : s.dev.store.deviceInitialized = true
  key : s.dev.store.slot.initialized = true
  signature : s.dev.store.signatureSet = 0

/-- The initialisation, when no slot of the phrase is there and every call succeeds. -/
theorem storeInit_ready {store : CryptoStore} (hc : ∀ slot, choice P (calm phrase) store ≠ .use slot) :
    (stateAfter ((cryptoStoreInit P (calm phrase)).run store)).deviceInitialized = true ∧
      (stateAfter ((cryptoStoreInit P (calm phrase)).run store)).slot.initialized = true := by
  have hout := initOutcome P (calm phrase) rfl store
  generalize (cryptoStoreInit P (calm phrase)).run store = r at hout ⊢
  cases hout with
  | found h => exact absurd h (hc _)
  | @filled c _ _ _ =>
    refine ⟨rfl, ?_⟩
    exact congrArg CryptoSlot.initialized (setSlot_slot (fun _ => keySlotOf P (seedOf P phrase)) (c.apply store))
  | failed _ _ hcalls =>
    have hall : callsSucceed (calm phrase) = true := rfl
    exact absurd (hall.symm.trans hcalls) nofun

theorem switchOn_ready (s : Lifetime) : Ready (switchOn P phrase s) := by
  have hset : (boot P (calm phrase) s.dev.store).signatureSet = 0 := boot_signatureSet P _ _
  unfold switchOn
  dsimp only
  split
  · rename_i hready
    exact ⟨hready, ((boot_selects (calm phrase) s.dev.store).2 hready).1, hset⟩
  · -- the boot and the initialisation go down the same tree
    rename_i hready
    have hno : ∀ slot, choice P (calm phrase) s.dev.store.reset ≠ .use slot := by
      intro slot hc
      have htest := cryptoStoreInitTest_eq P (calm phrase) s.dev.store.reset
      rw [hc] at htest
      have htrue : (cryptoStoreInitTest P (calm phrase) s.dev.store.reset).1 = true := by rw [htest]
      exact hready htrue
    have hboot : choice P (calm phrase) (boot P (calm phrase) s.dev.store) =
        choice P (calm phrase) s.dev.store.reset := by
      have hslots := (boot_selects (P := P) (calm phrase) s.dev.store).1
      unfold choice cryptoStoreSlotIsInitialized sameMasterseed
      rw [hslots]
      rfl
    obtain ⟨hinit, hkey⟩ := storeInit_ready phrase fun slot => by rw [hboot]; exact hno slot
    refine ⟨hinit, hkey, ?_⟩
    exact (storeInit_signature P phrase (fun _ => false) _).1.trans hset

theorem holdsKeys_switchOn (h : HoldsKeys P s) : HoldsKeys P (switchOn P phrase s) := by
  have hboot := holdsKeys_step h (.boot phrase fun _ => false)
  unfold switchOn
  dsimp only
  split
  · exact hboot
  · exact holdsKeys_step hboot _

theorem phrase_switchOn (s : Lifetime) : (switchOn P phrase s).phrase = phrase := by
  unfold switchOn
  dsimp only
  split <;> rfl

theorem dev_switchOn (s : Lifetime) :
    (switchOn P phrase s).dev.expert = s.dev.expert ∧ (switchOn P phrase s).dev.pinValidated = s.dev.pinValidated ∧
      (switchOn P phrase s).dev.upload.buffering = ⟨s.dev.upload.buffering.data, 0, 0⟩ := by
  unfold switchOn
  dsimp only
  split <;> exact ⟨rfl, rfl, rfl⟩

/-- The size of the transaction buffer is that of the start, over the whole life of a device. -/
theorem buffer_of_run {s₀ : Lifetime} {tr : List OutageStep} (hvalid : s₀.dev.upload.buffering.Valid)
    (h : Run (Lifetime.stepOutage P) s₀ tr s) :
    s.dev.upload.buffering.Valid ∧ s.dev.upload.buffering.data.length = s₀.dev.upload.buffering.data.length := by
  refine h.history (fun _ s => s.dev.upload.buffering.Valid ∧
    s.dev.upload.buffering.data.length = s₀.dev.upload.buffering.data.length) ⟨hvalid, rfl⟩ ?_
  intro tr s ev _ ⟨hs, hlen⟩
  have app : ∀ ev, (s.dev.step P ev).1.upload.buffering.Valid ∧
      (s.dev.step P ev).1.upload.buffering.data.length = s₀.dev.upload.buffering.data.length := by
    intro ev
    obtain ⟨hv, hl⟩ := step_buffer P hs ev
    exact ⟨hv, hl.trans hlen⟩
  rcases ev with lev | ⟨fails, site, phrase, bootFails⟩
  · cases lev with
    | boot phrase fails => exact ⟨⟨Nat.zero_le _, Nat.zero_le _⟩, hlen⟩
    | storeInit fails => exact ⟨hs, hlen⟩
    | addressHashFails => exact ⟨hs, hlen⟩
    | apdu a => exact app (.apdu a)
    | approve salt => exact app (.approve salt)
    | reject => exact app .reject
    | setExpert on => exact app (.setExpert on)
    | setPin validated => exact app (.setPin validated)
  · exact ⟨⟨Nat.zero_le _, Nat.zero_le _⟩, hlen⟩

/-! ## The wallet it is then -/

/-- A device with the keys of its recovery phrase is the wallet of it. -/
theorem walletOf_eq_phraseWallet (hsize : ∀ pq, (P.generatePair pq).1.size = 512) (H : List UInt8 → ByteArr 48)
    (b64 : List UInt8 → String) (h : HoldsKeys P s) (hs : Ready s) :
    walletOf P H b64 s.dev =
      phraseWallet P H b64 s.phrase s.dev.expert s.dev.pinValidated s.dev.upload.buffering.data.length := by
  have hpub := h.rsaPub hs.ready hs.key
  have hpriv := rsaPriv_of_holdsKeys h hs.ready hs.key
  have hclosed : closedCode P s.dev = if s.dev.pinValidated then none else some (answeredSw P.pinCode) := by
    rw [closedCode, hs.ready]
    cases s.dev.pinValidated <;> rfl
  have hshown : ∀ tx : TxFields, tx.ShownNormally P s.dev.store ↔ tx.owner = modulusOf P s.phrase ∧
      (tx.target ≠ [] ∧ tx.target.length ≤ 150) ∧ QuantityRenders P tx.quantity ∧
        (tx.lastTx ≠ [] ∧ tx.lastTx.length ≤ 150) := by
    intro tx
    have howner : OwnerInUse s.dev.store tx.owner ↔ tx.owner = modulusOf P s.phrase := by
      rw [OwnerInUse, cryptoStoreIsInitialized, hs.key, hpub, eq_self, true_and]
      rfl
    constructor
    · intro hx
      exact ⟨howner.1 hx.owner, hx.target, hx.quantity, hx.lastTx⟩
    · rintro ⟨ho, ht, hq, hl⟩
      exact ⟨howner.2 ho, ht, hq, hl⟩
  have haddress := h.addressOf_eq hsize hs.ready hs.key
  simp only [walletOf, phraseWallet, hclosed, hshown, haddress, hpriv, and_assoc]
  rw [hpub]
  rfl

end

end PhraseAux

open PhraseAux CurrentKeyAux ExchangeAux GenuineAux WalletAux

/-- Whatever a device lived through from erased flash, boots with other phrases, calls that failed and losses of power anywhere
but right before a key is written or the seed or the flag of a slot is erased: once it is switched on with a phrase, every session
of the client, over a transport that delivers, with a user who approves and a platform that answers and generates keys of 512
bytes, is one of the wallet of this phrase, and so is the device afterwards. Its transaction buffer has at most 16384 bytes. -/
theorem session_of_phrase (P : Platform) (hsize : ∀ pq, (P.generatePair pq).1.size = 512) {s₀ s : Lifetime}
    (h₀ : s₀.dev.store = CryptoStore.erased) (hvalid : s₀.dev.upload.buffering.Valid)
    (hbuffer : s₀.dev.upload.buffering.data.length ≤ 16384) {tr : List OutageStep}
    (h : Run (Lifetime.stepOutage P) s₀ tr s) (hsafe : ∀ e ∈ tr, e.input.Safe) (phrase : String)
    (H : List UInt8 → ByteArr 48) (hhash : ∀ x, P.sha384 x = .ok (H x))
    (hsign : ∀ salt digest, P.rsaSign (keysOf P (seedOf P phrase)).2 salt digest ≠ none)
    (happend : ∀ size pos c, c.length ≤ size - pos → P.appended size pos c = c.length) (b64 : List UInt8 → String) {τ : Type}
    (T : Transport τ) (device : τ → Device) (hT : Delivers P T device) (t : τ) (ht : device t = (switchOn P phrase s).dev)
    (calls : List ClientCall) :
    let W := phraseWallet P H b64 phrase s.dev.expert s.dev.pinValidated s₀.dev.upload.buffering.data.length
    ∃ results w m, (session (ClientCall.perform T b64) calls).run ⟨t, []⟩ = .ok results w ∧
      Steps W.Answers none calls results m ∧ pendingSignature (device w.transport).store = m ∧
      walletOf P H b64 (device w.transport) = W := by
  intro W
  have hkeys : HoldsKeys P s := holdsKeys_run (holdsKeys_erased h₀) h hsafe
  have hlen := (buffer_of_run hvalid h).2
  obtain ⟨hexpert, hpin, hempty⟩ := dev_switchOn (P := P) phrase s
  have hon := switchOn_ready (P := P) phrase s
  have hkeys' := holdsKeys_switchOn phrase hkeys
  have hphrase := phrase_switchOn (P := P) phrase s
  have hwallet : walletOf P H b64 (device t) = W := by
    rw [ht, walletOf_eq_phraseWallet hsize H b64 hkeys' hon, hphrase, hexpert, hpin, hempty, hlen]
  have hpending : pendingSignature (device t).store = none := by
    rw [ht, pendingSignature, hon.signature]
    rfl
  have hP : AnswersCalls P H (device t).store := by
    refine ⟨hhash, ?_, happend⟩
    rw [ht, rsaPriv_of_holdsKeys hkeys' hon.ready hon.key, hphrase]
    exact hsign
  have hbuffer' : (device t).upload.buffering.data.length ≤ 16384 := by
    rw [ht, hempty, hlen]
    exact hbuffer
  have hvalid' : (device t).upload.buffering.Valid := by
    rw [ht, hempty]
    exact ⟨Nat.zero_le _, Nat.zero_le _⟩
  obtain ⟨results, w, m, hrun, hsteps, hw⟩ := (refines_wallet b64 hT hP (fun _ => by rw [ht]; exact hon.key) hbuffer').session
    calls (s := ⟨t, []⟩) (a := none) ⟨⟨.refl _, rfl, rfl, rfl, hvalid'⟩, hpending⟩
  rw [hwallet] at hsteps
  exact ⟨results, w, m, hrun, hsteps, hw.pending, (walletOf_of_settings b64 hw.settings).trans hwallet⟩

/-- A device that lost power in one initialisation and its key generation in another, and was then initialised for another
phrase, over a cable. -/
theorem session_of_phrase_cable :
    let b64 : List UInt8 → String := fun bytes => toAscii (b64urlText bytes)
    let is : List OutageEvent := [.live (.boot "zoo" fun _ => false), .outage (fun _ => false) .pq "zoo" fun _ => false,
      .live (.storeInit fun call => call = .generatePair), .live (.storeInit fun _ => false)]
    let s := final (Lifetime.stepOutage Demo.platform) ⟨{ Demo.device 1000 with store := CryptoStore.erased }, ""⟩ is
    let calls : List ClientCall := [.getAddress, .sign Demo.tx, .getSignaturePart 1]
    ∃ results w m, (session (ClientCall.perform (cable Demo.platform 0) b64) calls).run
        ⟨(switchOn Demo.platform "abandon" s).dev, []⟩ = .ok results w ∧
      Steps (phraseWallet Demo.platform (ByteArr.ofList 48) b64 "abandon" s.dev.expert s.dev.pinValidated 1000).Answers none calls
        results m := by
  intro b64 is s calls
  let s₀ : Lifetime := ⟨{ Demo.device 1000 with store := CryptoStore.erased }, ""⟩
  have hlen : s₀.dev.upload.buffering.data.length = 1000 := List.length_replicate
  have hvalid : s₀.dev.upload.buffering.Valid := ⟨Nat.zero_le _, Nat.zero_le _⟩
  have hbuffer : s₀.dev.upload.buffering.data.length ≤ 16384 := by
    rw [hlen]
    decide
  have hsafe : ∀ e ∈ trace (Lifetime.stepOutage Demo.platform) s₀ is, e.input.Safe := by
    simp [is, trace, Entry.ofStep]
  obtain ⟨results, w, m, hrun, hsteps, -⟩ := session_of_phrase Demo.platform (fun _ => rfl) rfl hvalid hbuffer
    (run_trace (Lifetime.stepOutage Demo.platform) s₀ is) hsafe "abandon" (ByteArr.ofList 48) (fun _ => rfl)
    (fun _ _ => Option.some_ne_none _) (fun _ _ _ h => if_pos h) b64 (cable Demo.platform 0) id (delivers_cable Demo.platform 0) _
    rfl calls
  rw [hlen] at hsteps
  exact ⟨results, w, m, hrun, hsteps⟩

end LedgerArweave
