import LedgerArweave.Boots
import LedgerArweave.Demo

/-!
# Power losses and the keys

A boot takes a slot whose flag `initialized` is up and whose seed is that of the recovery phrase. `crypto_init_keys` raises the
flag before it writes the keys, and `crypto_uninitialized_slot` erases the private key before the seed: a power loss right
behind either leaves a slot that a boot takes and that does not hold the keys of its seed. A loss anywhere else does not.
-/

namespace LedgerArweave

open Lib

section

variable (P : Platform)

/-! ## The keys of a seed -/

/-- The bytes the search for a prime starts from. -/
def primeSeed (masterSeed : ByteArr 32) (index : Nat) : List UInt8 :=
  (List.range' 0 8).flatMap fun hashIndex => (P.sha256 (primeData masterSeed index hashIndex)).1

/-- The two primes of a seed. -/
def primesOf (masterSeed : ByteArr 32) : ByteArr 512 :=
  ByteArr.ofList 512 ((P.nextPrime (ByteArr.ofList 256 (setTopBit (primeSeed P masterSeed 0)))).1 ++
    (P.nextPrime (ByteArr.ofList 256 (setTopBit (primeSeed P masterSeed 1)))).1)

/-- The keys generated from a seed. -/
def keysOf (masterSeed : ByteArr 32) : RsaPublicKey × RsaPrivateKey := P.generatePair (primesOf P masterSeed)

/-- A slot holds the keys generated from the seed it holds. -/
def CryptoSlot.Consistent (k : CryptoSlot) : Prop := (k.rsaPub, k.rsaPriv) = keysOf P k.masterSeed

/-- Whenever `crypto_store_init_test` returns true at a boot, the slot it selected holds the keys of its seed. -/
def BootsConsistent (tr : List (Entry Powered PowerEvent (Option Bool))) : Prop :=
  ∀ e ∈ tr, e.output = some true → e.after.store.slot.Consistent P

/-- No initialisation loses power right before it writes a key, or right before `crypto_uninitialized_slot` erases the seed. -/
def PowerEvent.SafeLoss (ev : PowerEvent) : Prop :=
  ∀ fails site, ev = .storeInit fails (some site) → site ≠ .rsaPub ∧ site ≠ .rsaPriv ∧ ∀ slot, site ≠ .uninitMasterSeed slot

/-- No initialisation loses power right before `crypto_uninitialized_slot` takes down the flag of a slot whose seed it erased. -/
def PowerEvent.SeedOrFlag (ev : PowerEvent) : Prop :=
  ∀ fails slot, ev ≠ .storeInit fails (some (.uninitInitialized slot))

/-- A boot whose recovery phrase does not derive the erased seed. -/
def PowerEvent.SeedNotErased (ev : PowerEvent) : Prop :=
  ∀ phrase fails, ev = .boot phrase fails → seedOf P phrase ≠ ByteArr.zero 32

namespace CrashAux

/-! ## Slots -/

/-- A slot whose flag is up holds the keys of its seed, or its seed is erased; the latter only if `erased` says so. -/
def SlotOk (erased : Prop) (k : CryptoSlot) : Prop :=
  k.initialized = true → k.Consistent P ∨ (erased ∧ k.masterSeed = ByteArr.zero 32)

/-- All slots but one are as they must be. -/
def OthersOk (erased : Prop) (slot : KeySlot) (s : CryptoStore) : Prop :=
  ∀ other, other ≠ slot → SlotOk P erased (s.nCryptoStore other)

/-- Every slot is as it must be. -/
def StoreOk (erased : Prop) (s : CryptoStore) : Prop := ∀ slot, SlotOk P erased (s.nCryptoStore slot)

/-- The losses a run of the initialisation may meet. -/
structure Safe (erased : Prop) (env : InitEnv) : Prop where
  rsaPub : env.powerLoss ≠ some .rsaPub
  rsaPriv : env.powerLoss ≠ some .rsaPriv
  masterSeed : ∀ slot, env.powerLoss ≠ some (.uninitMasterSeed slot)
  flag : ∀ slot, env.powerLoss = some (.uninitInitialized slot) → erased

variable {P} {erased : Prop} {slot : KeySlot} {s : CryptoStore}

/-- A slot whose flag is down may hold anything. -/
theorem SlotOk.of_not {k : CryptoSlot} (h : k.initialized = false) : SlotOk P erased k := by
  intro hi
  rw [h] at hi
  cases hi

/-- All slots are as they must be: then all but one are. -/
theorem StoreOk.others (h : StoreOk P erased s) (slot : KeySlot) : OthersOk P erased slot s := fun other _ => h other

/-- The one that was left out completes them. -/
theorem OthersOk.store (h : OthersOk P erased slot s) (hs : SlotOk P erased (s.nCryptoStore slot)) : StoreOk P erased s := by
  intro other
  by_cases ho : other = slot
  · rw [ho]
    exact hs
  · exact h other ho

/-- A write to a slot leaves the others as they must be. -/
theorem OthersOk.setSlotAt (h : OthersOk P erased slot s) (f : CryptoSlot → CryptoSlot) :
    OthersOk P erased slot (setSlotAt slot f s) := by
  intro other ho
  rw [setSlotAt_ne ho]
  exact h other ho

/-- The same for a write to the slot in use. -/
theorem OthersOk.setSlot (h : OthersOk P erased s.slotInUse s) (f : CryptoSlot → CryptoSlot) :
    OthersOk P erased (setSlot f s).slotInUse (setSlot f s) := h.setSlotAt f

/-! ## Writes and calls -/

variable {env : InitEnv}

/-- A write: what holds before it must survive a loss of power right there, if the run may meet one there. -/
theorem triple_nvWrite {site : NvSite} {write : CryptoStore → CryptoStore} {I Q : CryptoStore → Prop}
    {E : InitStop → CryptoStore → Prop} (hwrite : ∀ s, I s → Q (write s))
    (hloss : env.powerLoss = some site → ∀ s, I s → E .powerLoss s) :
    Triple I (nvWrite env site write) (fun _ => Q) E :=
  .ite (fun hl => .throw (hloss hl)) fun _ => .modify hwrite

/-- A call answers or fails, and writes nothing. -/
theorem triple_deviceCall {α : Type} {call : DeviceCall} {result : α} {I : CryptoStore → Prop} :
    Triple I (deviceCall env call result) (fun a s => I s ∧ a = result) (fun _ => I) :=
  .ite (fun _ => .throw fun _ h => h) fun _ => .pure fun _ h => ⟨h, rfl⟩

/-- A program from a state about which a fact is known. -/
theorem triple_of_fact {ε σ α : Type} {c : Prop} {I : σ → Prop} {x : EStateM ε σ α} {Q : α → σ → Prop} {E : ε → σ → Prop}
    (h : c → Triple I x Q E) : Triple (fun s => I s ∧ c) x Q E := fun s hs => h hs.2 s hs.1

/-! ## Filling a slot -/

/-- The hashes of a prime are those of the seed, by induction on how many are left. -/
theorem triple_primeHashes {I : CryptoStore → Prop} (masterSeed : ByteArr 32) (index n : Nat) :
    ∀ hashIndex, Triple I (primeHashes P env masterSeed index n hashIndex)
      (fun l s => I s ∧ l = (List.range' hashIndex n).flatMap fun h => (P.sha256 (primeData masterSeed index h)).1)
      (fun _ => I) := by
  induction n with
  | zero => exact fun _ => .pure fun _ h => ⟨h, rfl⟩
  | succ n ih =>
    intro hashIndex
    refine .bind triple_deviceCall fun hash => triple_of_fact ?_
    intro hhash
    refine .bind (ih (hashIndex + 1)) fun rest => triple_of_fact fun hrest => .pure fun _ h => ⟨h, ?_⟩
    rw [hhash, hrest, List.range'_succ, List.flatMap_cons]

section

variable {I Q : CryptoStore → Prop} {E : InitStop → CryptoStore → Prop} (hE : ∀ e s, I s → E e s)

include hE

/-- A call, where an error may leave what holds before it. -/
theorem triple_deviceCall_error {α : Type} {call : DeviceCall} {result : α} :
    Triple I (deviceCall env call result) (fun a s => I s ∧ a = result) E :=
  triple_deviceCall.conseq (fun _ h => h) (fun _ _ h => h) hE

/-- A prime is derived from the seed that is known to be in the slot in use. -/
theorem triple_cryptoDerivePrime {masterSeed : ByteArr 32} (hseed : ∀ s, I s → s.slot.masterSeed = masterSeed)
    (index : Nat) :
    Triple I (cryptoDerivePrime P env index) (fun l s => I s ∧ l = primeSeed P masterSeed index) E := by
  refine .bind (Q := fun a s => I s ∧ a.slot.masterSeed = masterSeed) (.get fun s hs => ⟨hs, hseed s hs⟩) fun a =>
    triple_of_fact ?_
  intro ha
  rw [ha]
  exact (triple_primeHashes masterSeed index _ 0).conseq (fun _ h => h) (fun _ _ h => h) hE

/-- The primes of the seed are written at once, when both are found. -/
theorem triple_cryptoInitPrimes {masterSeed : ByteArr 32} (hseed : ∀ s, I s → s.slot.masterSeed = masterSeed)
    (hwrite : ∀ s, I s → Q (setSlot (fun k => { k with pq := primesOf P masterSeed }) s)) :
    Triple I (cryptoInitPrimes P env) (fun _ => Q) E := by
  refine .bind (triple_cryptoDerivePrime hE hseed 0) fun p => triple_of_fact ?_
  rintro rfl
  refine .bind (triple_cryptoDerivePrime hE hseed 1) fun q => triple_of_fact ?_
  rintro rfl
  refine .bind (triple_deviceCall_error hE) fun p => triple_of_fact ?_
  rintro rfl
  refine .bind (triple_deviceCall_error hE) fun q => triple_of_fact ?_
  rintro rfl
  exact triple_nvWrite hwrite fun _ s hs => hE _ s hs

/-- The flag goes up first, then the keys of the primes follow: what holds between two of the three writes must survive a loss of
power right before the second one. -/
theorem triple_cryptoInitKeys {pq : ByteArr 512} (hpq : ∀ s, I s → s.slot.pq = pq) {J K : CryptoStore → Prop}
    (hflag : ∀ s, I s → J (setSlot (fun k => { k with initialized := true }) s))
    (hpub : ∀ s, J s → K (setSlot (fun k => { k with rsaPub := (P.generatePair pq).1 }) s))
    (hpriv : ∀ s, K s → Q (setSlot (fun k => { k with rsaPriv := (P.generatePair pq).2 }) s))
    (hlossPub : env.powerLoss = some .rsaPub → ∀ s, J s → E .powerLoss s)
    (hlossPriv : env.powerLoss = some .rsaPriv → ∀ s, K s → E .powerLoss s) :
    Triple I (cryptoInitKeys P env) (fun _ => Q) E := by
  refine .bind (Q := fun a s => I s ∧ a.slot.pq = pq) (.get fun s hs => ⟨hs, hpq s hs⟩) fun a => triple_of_fact ?_
  intro ha
  rw [ha]
  refine .bind (triple_deviceCall_error hE) fun keys => triple_of_fact ?_
  rintro rfl
  refine .bind (Q := fun _ => J) (triple_nvWrite hflag fun _ s hs => hE _ s hs) fun _ => ?_
  exact .bind (Q := fun _ => K) (triple_nvWrite hpub hlossPub) fun _ => triple_nvWrite hpriv hlossPriv

end

/-- What is known of the store while a slot is filled: its flag is down and it holds the seed. -/
structure Filling (P : Platform) (erased : Prop) (masterSeed : ByteArr 32) (s : CryptoStore) : Prop where
  ok : StoreOk P erased s
  down : s.slot.initialized = false
  seed : s.slot.masterSeed = masterSeed

/-- Writing to a slot whose flag is down and stays down. -/
theorem filling_setSlot (f : CryptoSlot → CryptoSlot) (h : StoreOk P erased s) (hdown : (f s.slot).initialized = false) :
    Filling P erased (f s.slot).masterSeed (setSlot f s) := by
  refine ⟨?_, by rw [setSlot_slot, hdown], by rw [setSlot_slot]⟩
  rw [setSlot_eq_setSlotAt]
  refine ((h.others s.slotInUse).setSlotAt f).store (SlotOk.of_not ?_)
  rw [setSlotAt_self]
  exact hdown

/-- Deriving the seed: the slot, whose flag is down, is about to be filled. -/
theorem triple_cryptoDeriveMasterSeed :
    Triple (fun s => StoreOk P erased s ∧ s.slot.initialized = false) (cryptoDeriveMasterSeed P env)
      (fun _ => Filling P erased (seedOf P env.phrase)) (fun _ => StoreOk P erased) := by
  refine .bind (triple_deviceCall_error fun _ _ h => h.1) fun seed => triple_of_fact ?_
  rintro rfl
  exact triple_nvWrite (fun s hs => filling_setSlot (fun k => { k with masterSeed := seedOf P env.phrase }) hs.1 hs.2)
    fun _ s hs => hs.1

/-- The primes are found and written while the flag is down. -/
theorem triple_fillPrimes (masterSeed : ByteArr 32) :
    Triple (Filling P erased masterSeed) (cryptoInitPrimes P env)
      (fun _ s => Filling P erased masterSeed s ∧ s.slot.pq = primesOf P masterSeed) (fun _ => StoreOk P erased) := by
  refine triple_cryptoInitPrimes (fun _ _ h => h.ok) (fun _ h => h.seed) fun s hs => ⟨?_, by rw [setSlot_slot]⟩
  rw [← hs.seed]
  exact filling_setSlot (fun k => { k with pq := primesOf P s.slot.masterSeed }) hs.ok hs.down

/-- Filling a slot with its keys: the flag goes up first, so that power must not be lost before the keys are there. -/
theorem triple_fillKeys (hsafe : Safe erased env) (masterSeed : ByteArr 32) :
    Triple (fun s => Filling P erased masterSeed s ∧ s.slot.pq = primesOf P masterSeed) (cryptoInitKeys P env)
      (fun _ => StoreOk P erased) (fun _ => StoreOk P erased) := by
  refine triple_cryptoInitKeys (J := fun s => OthersOk P erased s.slotInUse s ∧ s.slot.masterSeed = masterSeed)
    (K := fun s => OthersOk P erased s.slotInUse s ∧ s.slot.masterSeed = masterSeed ∧
      s.slot.rsaPub = (keysOf P masterSeed).1)
    (fun _ _ hs => hs.1.ok) (fun _ hs => hs.2) (fun s hs => ?_) (fun s hs => ?_) (fun s hs => ?_)
    (fun hl => absurd hl hsafe.rsaPub) fun hl => absurd hl hsafe.rsaPriv
  · exact ⟨(hs.1.ok.others s.slotInUse).setSlot _, by rw [setSlot_slot]; exact hs.1.seed⟩
  · exact ⟨hs.1.setSlot _, by rw [setSlot_slot]; exact hs.2, by rw [setSlot_slot]; rfl⟩
  · rw [setSlot_eq_setSlotAt]
    refine (hs.1.setSlotAt _).store fun _ => Or.inl ?_
    rw [setSlotAt_self, CryptoSlot.Consistent]
    change (s.slot.rsaPub, (keysOf P masterSeed).2) = keysOf P s.slot.masterSeed
    rw [hs.2.1, hs.2.2]

/-- A whole slot is filled. -/
theorem triple_cryptoInitializeSlot (hsafe : Safe erased env) :
    Triple (fun s => StoreOk P erased s ∧ s.slot.initialized = false) (cryptoInitializeSlot P env)
      (fun _ => StoreOk P erased) (fun _ => StoreOk P erased) :=
  .bind triple_cryptoDeriveMasterSeed fun _ => .bind (triple_fillPrimes _) fun _ =>
    .bind (triple_fillKeys hsafe _) fun _ => .modify fun _ h => h

/-! ## Erasing a slot -/

/-- Erasing a slot: the private key goes before the seed, so that power must not be lost between the two. The other slot is left
alone. -/
theorem triple_cryptoUninitializedSlot (hsafe : Safe erased env) (slot other : KeySlot) (hother : other ≠ slot)
    (R : CryptoSlot → Prop) :
    Triple (fun s => StoreOk P erased s ∧ R (s.nCryptoStore other)) (cryptoUninitializedSlot env slot)
      (fun _ s => StoreOk P erased s ∧ (s.nCryptoStore slot).initialized = false ∧ R (s.nCryptoStore other))
      (fun _ => StoreOk P erased) := by
  have keep : ∀ (f : CryptoSlot → CryptoSlot) (s : CryptoStore), R (s.nCryptoStore other) →
      R ((setSlotAt slot f s).nCryptoStore other) := fun f s h => by rwa [setSlotAt_ne hother]
  have hpq : Triple (fun s => StoreOk P erased s ∧ R (s.nCryptoStore other))
      (nvWrite env (.uninitPq slot) (setSlotAt slot fun k => { k with pq := ByteArr.zero 512 }))
      (fun _ s => StoreOk P erased s ∧ R (s.nCryptoStore other)) (fun _ => StoreOk P erased) := by
    refine triple_nvWrite (fun s hs => ⟨((hs.1.others slot).setSlotAt _).store ?_, keep _ s hs.2⟩) fun _ s hs => hs.1
    rw [setSlotAt_self]
    exact hs.1 slot
  have hpriv : Triple (fun s => StoreOk P erased s ∧ R (s.nCryptoStore other))
      (nvWrite env (.uninitRsaPriv slot) (setSlotAt slot fun k => { k with rsaPriv := RsaPrivateKey.zero }))
      (fun _ s => OthersOk P erased slot s ∧ R (s.nCryptoStore other)) (fun _ => StoreOk P erased) :=
    triple_nvWrite (fun s hs => ⟨(hs.1.others slot).setSlotAt _, keep _ s hs.2⟩) fun _ s hs => hs.1
  have hseed : Triple (fun s => OthersOk P erased slot s ∧ R (s.nCryptoStore other))
      (nvWrite env (.uninitMasterSeed slot) (setSlotAt slot fun k => { k with masterSeed := ByteArr.zero 32 }))
      (fun _ s => OthersOk P erased slot s ∧ (s.nCryptoStore slot).masterSeed = ByteArr.zero 32 ∧ R (s.nCryptoStore other))
      (fun _ => StoreOk P erased) :=
    triple_nvWrite (fun s hs => ⟨hs.1.setSlotAt _, by rw [setSlotAt_self], keep _ s hs.2⟩)
      fun hl => absurd hl (hsafe.masterSeed slot)
  have hflag : Triple
      (fun s => OthersOk P erased slot s ∧ (s.nCryptoStore slot).masterSeed = ByteArr.zero 32 ∧ R (s.nCryptoStore other))
      (nvWrite env (.uninitInitialized slot) (setSlotAt slot fun k => { k with initialized := false }))
      (fun _ s => StoreOk P erased s ∧ (s.nCryptoStore slot).initialized = false ∧ R (s.nCryptoStore other))
      (fun _ => StoreOk P erased) :=
    triple_nvWrite
      (fun s hs => ⟨(hs.1.setSlotAt _).store (.of_not (by rw [setSlotAt_self])), by rw [setSlotAt_self], keep _ s hs.2.2⟩)
      fun hl s hs => hs.1.store fun _ => Or.inr ⟨hsafe.flag slot hl, hs.2.1⟩
  exact .bind hpq fun _ => .bind hpriv fun _ => .bind hseed fun _ => hflag

/-! ## The initialisation -/

/-- Selecting a slot whose flag is down. -/
theorem triple_useSlot (slot : KeySlot) :
    Triple (fun s => StoreOk P erased s ∧ (s.nCryptoStore slot).initialized = false) (useSlot slot)
      (fun _ s => StoreOk P erased s ∧ s.slot.initialized = false) (fun _ => StoreOk P erased) := .modify fun _ h => h

/-- Which slot is in use does not matter to the slots. -/
theorem keeps_useSlot (slot : KeySlot) : Keeps (StoreOk P erased) (useSlot slot) := .modify fun _ h => h

/-- The initialisation leaves every slot as it must be, also when a call fails or when it loses power where it may. -/
theorem keeps_cryptoStoreInit_storeOk (hsafe : Safe erased env) : Keeps (StoreOk P erased) (cryptoStoreInit P env) := by
  refine Triple.bind (Q := fun a s => StoreOk P erased s ∧ a = s) (.get fun s hs => ⟨hs, rfl⟩) ?_
  intro a
  have fill : ∀ slot, (!cryptoStoreSlotIsInitialized a slot) = true → Triple (fun s => StoreOk P erased s ∧ a = s)
      (useSlot slot >>= fun _ => cryptoInitializeSlot P env) (fun _ => StoreOk P erased) (fun _ => StoreOk P erased) := by
    intro slot hdown
    refine .bind ((triple_useSlot slot).conseq (fun s hs => ⟨hs.1, ?_⟩) (fun _ _ h => h) fun _ _ h => h) fun _ =>
      triple_cryptoInitializeSlot hsafe
    have hflag : cryptoStoreSlotIsInitialized a slot = false := by simpa using hdown
    rw [← hs.2]
    exact hflag
  have use : ∀ slot, Triple (fun s => StoreOk P erased s ∧ a = s) (useSlot slot) (fun _ => StoreOk P erased)
      (fun _ => StoreOk P erased) := fun slot => (keeps_useSlot slot).conseq (fun _ h => h.1) (fun _ _ h => h) fun _ _ h => h
  refine .ite (fill .one) fun _ => .ite (fun _ => use .one) fun _ => .ite (fill .two) fun _ => .ite (fun _ => use .two) ?_
  intro _
  -- both slots are erased before the first one is filled
  have hone := (triple_cryptoUninitializedSlot (P := P) hsafe .one .two nofun fun _ => True).conseq
    (fun s (hs : StoreOk P erased s ∧ a = s) => ⟨hs.1, trivial⟩) (fun _ s hs => (⟨hs.1, hs.2.1⟩ : StoreOk P erased s ∧ _))
    fun _ _ h => h
  have htwo := (triple_cryptoUninitializedSlot (P := P) hsafe .two .one nofun fun k => k.initialized = false).conseq
    (fun s hs => hs) (fun _ s hs => (⟨hs.1, hs.2.2⟩ : StoreOk P erased s ∧ _)) fun _ _ h => h
  exact .bind hone fun _ => .bind htwo fun _ => .bind (triple_useSlot .one) fun _ => triple_cryptoInitializeSlot hsafe

/-! ## Boots -/

/-- A boot leaves the slots alone, and a slot it takes has its flag up and the seed of the recovery phrase. -/
theorem boot_selects (env : InitEnv) (s : CryptoStore) :
    (boot P env s).nCryptoStore = s.nCryptoStore ∧ ((cryptoStoreInitTest P env s.reset).1 = true →
      (boot P env s).slot.initialized = true ∧ (boot P env s).slot.masterSeed = seedOf P env.phrase) := by
  have same : ∀ {slot}, sameMasterseed P env s.reset slot = true → (s.nCryptoStore slot).masterSeed = seedOf P env.phrase := by
    intro slot h
    exact eq_of_beq (Bool.and_eq_true_iff.1 h).2
  have up : ∀ {slot}, ¬(!cryptoStoreSlotIsInitialized s.reset slot) = true → (s.nCryptoStore slot).initialized = true := by
    intro slot h
    simp only [Bool.not_eq_true', Bool.not_eq_false] at h
    exact h
  unfold boot
  rw [cryptoStoreInitTest]
  split
  · exact ⟨rfl, nofun⟩
  rename_i hone
  split
  · rename_i hsame
    exact ⟨rfl, fun _ => ⟨up hone, same hsame⟩⟩
  split
  · exact ⟨rfl, nofun⟩
  rename_i htwo
  split
  · rename_i hsame
    exact ⟨rfl, fun _ => ⟨up htwo, same hsame⟩⟩
  · exact ⟨rfl, nofun⟩

/-- Every event leaves every slot as it must be, when the power is lost only where it may. -/
theorem storeOk_step {s : Powered} (h : StoreOk P erased s.store) {ev : PowerEvent} (hloss : ev.SafeLoss)
    (hflag : erased ∨ ev.SeedOrFlag) : StoreOk P erased (s.step P ev).1.store := by
  cases ev with
  | boot phrase fails =>
    intro slot
    change SlotOk P erased ((boot P ⟨phrase, fails, none⟩ s.store).nCryptoStore slot)
    rw [(boot_selects ⟨phrase, fails, none⟩ s.store).1]
    exact h slot
  | storeInit fails powerLoss =>
    have hsafe : Safe erased ⟨s.phrase, fails, powerLoss⟩ := by
      refine ⟨?_, ?_, ?_, ?_⟩
      · intro hl
        exact (hloss fails .rsaPub (by rw [← hl])).1 rfl
      · intro hl
        exact (hloss fails .rsaPriv (by rw [← hl])).2.1 rfl
      · intro slot hl
        exact (hloss fails (.uninitMasterSeed slot) (by rw [← hl])).2.2 slot rfl
      · intro slot hl
        exact hflag.resolve_right fun hno => hno fails slot (by rw [← hl])
    obtain ⟨hok, herr⟩ := (keeps_cryptoStoreInit_storeOk hsafe).state h
    rw [Powered.step]
    split
    · split
      · rename_i heq
        exact hok _ _ heq
      · rename_i heq
        exact herr _ _ heq
      · rename_i heq
        exact herr _ _ heq
    · exact h

/-- So does every run, by induction. -/
theorem storeOk_run {s₀ : Powered} (h₀ : StoreOk P erased s₀.store) {tr : List (Entry Powered PowerEvent (Option Bool))}
    {s : Powered} (h : Run (Powered.step P) s₀ tr s) (hloss : ∀ e ∈ tr, e.input.SafeLoss)
    (hflag : ∀ e ∈ tr, erased ∨ e.input.SeedOrFlag) : StoreOk P erased s.store := by
  refine h.history_of (fun _ s => StoreOk P erased s.store) (c := fun e => e.input.SafeLoss ∧ (erased ∨ e.input.SeedOrFlag)) h₀
    ?_ fun e he => ⟨hloss e he, hflag e he⟩
  intro tr s ev _ hs ⟨hev, hup⟩
  exact storeOk_step hs hev hup

end CrashAux

open CrashAux

/-- In every run of boots and initialisations, with any recovery phrases, any failing calls and power losses anywhere but right
before a key is written or the seed of a slot is erased, every slot a boot takes holds the keys of its seed. Losses right before
the flag of an erased slot is taken down do no harm either, when no recovery phrase derives the erased seed. -/
theorem boots_consistent (s₀ : Powered) (h₀ : ∀ slot, (s₀.store.nCryptoStore slot).initialized = false)
    (tr : List (Entry Powered PowerEvent (Option Bool))) (s : Powered) (h : Run (Powered.step P) s₀ tr s)
    (hloss : ∀ e ∈ tr, e.input.SafeLoss)
    (hflag : (∀ e ∈ tr, e.input.SeedOrFlag) ∨ ∀ e ∈ tr, e.input.SeedNotErased P) : BootsConsistent P tr := by
  intro e he hout
  obtain ⟨pre, post, rfl⟩ := List.append_of_mem he
  obtain ⟨hrun, hstep⟩ := h.split rfl
  have hinv : StoreOk P (∀ x ∈ pre ++ e :: post, x.input.SeedNotErased P) e.before.store := by
    refine storeOk_run (fun slot => .of_not (h₀ slot)) hrun (fun x hx => hloss x (List.mem_append_left _ hx)) ?_
    intro x hx
    exact hflag.symm.imp id fun hf => hf x (List.mem_append_left _ hx)
  rw [hstep] at hout ⊢
  cases hev : e.input with
  | storeInit fails powerLoss =>
    have hnone : ((e.before).step P (.storeInit fails powerLoss)).2 = none := by
      rw [Powered.step]
      split
      · split <;> rfl
      · rfl
    rw [hev] at hout
    exact absurd (hnone.symm.trans hout) nofun
  | boot phrase fails =>
    rw [hev] at hout
    obtain ⟨hslots, hselects⟩ := boot_selects (P := P) ⟨phrase, fails, none⟩ e.before.store
    obtain ⟨hup, hseed⟩ := hselects (Option.some.inj hout)
    have hslot := hinv (boot P ⟨phrase, fails, none⟩ e.before.store).slotInUse
    rw [← hslots] at hslot
    rcases hslot hup with hok | ⟨hall, hzero⟩
    · exact hok
    · exact absurd (hseed.symm.trans hzero) (hall e he phrase fails hev)

end

/-- A first initialisation loses power before it stores the primes, a second one succeeds, and a boot takes its slot. -/
theorem boots_consistent_second_attempt :
    let is : List PowerEvent := [.boot "abandon" fun _ => false, .storeInit (fun _ => false) (some .pq),
      .boot "abandon" fun _ => false, .storeInit (fun _ => false) none, .boot "abandon" fun _ => false]
    let tr := trace (Powered.step Demo.platform) ⟨CryptoStore.erased, "", false⟩ is
    (tr.map Entry.output = [some false, none, some false, none, some true]) ∧ BootsConsistent Demo.platform tr := by
  intro is tr
  refine ⟨by decide +kernel, boots_consistent Demo.platform _ (fun _ => rfl) tr _ (run_trace _ _ is) ?_ (Or.inl ?_)⟩
  · simp only [tr, is, trace, List.forall_mem_cons, List.not_mem_nil, false_implies, implies_true, and_true]
    refine ⟨?_, ?_, ?_, ?_, ?_⟩ <;> intro fails site hev <;> cases hev
    exact ⟨by decide, by decide, fun slot h => by cases h⟩
  · simp only [tr, is, trace, List.forall_mem_cons, List.not_mem_nil, false_implies, implies_true, and_true]
    refine ⟨?_, ?_, ?_, ?_, ?_⟩ <;> intro fails slot hev <;> cases hev

/-- Power is lost right before the public key is written; the next boot takes the slot, which holds a zero key. -/
theorem not_boots_consistent :
    ¬BootsConsistent Demo.platform (trace (Powered.step Demo.platform) ⟨CryptoStore.erased, "", false⟩
      [.boot "abandon" fun _ => false, .storeInit (fun _ => false) (some .rsaPub), .boot "abandon" fun _ => false]) := by
  intro h
  have hlast := h (Entry.ofStep (Powered.step Demo.platform) (final (Powered.step Demo.platform) ⟨CryptoStore.erased, "", false⟩
    [.boot "abandon" fun _ => false, .storeInit (fun _ => false) (some .rsaPub)]) (.boot "abandon" fun _ => false))
    (by simp [trace, final]) (by decide +kernel)
  have hsize : (Entry.ofStep (Powered.step Demo.platform) (final (Powered.step Demo.platform)
      ⟨CryptoStore.erased, "", false⟩ [.boot "abandon" fun _ => false, .storeInit (fun _ => false) (some .rsaPub)])
      (.boot "abandon" fun _ => false)).after.store.slot.rsaPub.size = 0 := by
    decide +kernel
  have hkeys := congrArg (fun k => k.1.size) hlast
  exact absurd (hsize.symm.trans hkeys) (by decide)

end LedgerArweave
