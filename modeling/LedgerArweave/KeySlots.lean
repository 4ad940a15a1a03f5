import LedgerArweave.Theorems.Crash

/-!
# Which slot the initialisation takes

`crypto_store_init` and `crypto_store_init_test` go down the same tree (`choice`): the slot that holds the seed of the recovery
phrase, an empty slot, or, when both slots hold other seeds, the first one after both were erased. One lemma per function says
how it ends, for every outcome of the calls it makes (`initOutcome`).
-/

namespace LedgerArweave

open Lib

/-- The end of the tree: take a slot as it is, fill an empty one, or erase both and fill the first. -/
inductive Choice where
  | use (slot : KeySlot)
  | fill (slot : KeySlot)
  | evict
  deriving DecidableEq, Repr

/-- A slot after `crypto_uninitialized_slot`: the public key stays. -/
def CryptoSlot.wiped (k : CryptoSlot) : CryptoSlot :=
  { k with pq := ByteArr.zero 512, rsaPriv := RsaPrivateKey.zero, masterSeed := ByteArr.zero 32, initialized := false }

/-- Both slots erased. -/
def CryptoStore.emptied (s : CryptoStore) : CryptoStore :=
  setSlotAt .two CryptoSlot.wiped (setSlotAt .one CryptoSlot.wiped s)

/-- The store when the slot of the choice is selected. -/
def Choice.apply (s : CryptoStore) : Choice → CryptoStore
  | .use slot => { s with slotInUse := slot }
  | .fill slot => { s with slotInUse := slot }
  | .evict => { s.emptied with slotInUse := .one }

section

variable (P : Platform) (env : InitEnv)

/-- The slot that the tree ends in, for the recovery phrase. -/
def choice (s : CryptoStore) : Choice :=
  if !cryptoStoreSlotIsInitialized s .one then .fill .one
  else if sameMasterseed P env s .one then .use .one
  else if !cryptoStoreSlotIsInitialized s .two then .fill .two
  else if sameMasterseed P env s .two then .use .two
  else .evict

/-- Both slots are initialised, and `same_masterseed` returns false for both. -/
def Evicts (s : CryptoStore) : Prop :=
  ∀ slot, (s.nCryptoStore slot).initialized = true ∧ sameMasterseed P env s slot = false

/-- The initialisation comes to a flash write: it would stop there, in this state, if the power went right before it. -/
def ReachesWrite (phrase : String) (fails : DeviceCall → Bool) (s : CryptoStore) (site : NvSite) (s' : CryptoStore) : Prop :=
  (cryptoStoreInit P ⟨phrase, fails, some site⟩).run s = .error .powerLoss s'

/-- The calls of `crypto_derivePrime` succeed. -/
def hashesSucceed (index : Nat) : Bool := (List.range' 0 8).all fun h => !env.fails (.primeHash index h)

/-- The calls of `crypto_initialize_slot` succeed. -/
def callsSucceed : Bool :=
  !env.fails .deriveMasterSeed && hashesSucceed env 0 && hashesSucceed env 1 && !env.fails (.nextPrime 0) &&
    !env.fails (.nextPrime 1) && !env.fails .generatePair

/-- A slot filled from a seed. -/
def keySlotOf (masterSeed : ByteArr 32) : CryptoSlot :=
  ⟨masterSeed, primesOf P masterSeed, (keysOf P masterSeed).1, (keysOf P masterSeed).2, true⟩

/-- The writes of `crypto_initialize_slot`. -/
def fillSites : List NvSite := [.masterSeed, .pq, .initialized, .rsaPub, .rsaPriv]

/-- The power is not lost while a slot is filled. -/
def PowerHolds : Prop := ∀ site ∈ fillSites, env.powerLoss ≠ some site

/-! ## The two trees -/

/-- `crypto_store_init_test` finds the slot the tree ends in. -/
theorem cryptoStoreInitTest_eq (s : CryptoStore) :
    cryptoStoreInitTest P env s =
      match choice P env s with
      | .use slot => (true, { s with slotInUse := slot })
      | _ => (false, s) := by
  unfold cryptoStoreInitTest choice
  split
  · rfl
  · split
    · rfl
    · split
      · rfl
      · split <;> rfl

/-- `crypto_store_init` runs down the tree. -/
theorem run_cryptoStoreInit (s : CryptoStore) :
    (cryptoStoreInit P env).run s =
      match choice P env s with
      | .use slot => .ok ⟨⟩ { s with slotInUse := slot }
      | .fill slot => (cryptoInitializeSlot P env).run { s with slotInUse := slot }
      | .evict => (cryptoUninitializedSlot env .one >>= fun _ => cryptoUninitializedSlot env .two >>= fun _ =>
          useSlot .one >>= fun _ => cryptoInitializeSlot P env).run s := by
  unfold cryptoStoreInit choice
  rw [run_bind_of_ok (run_get s)]
  simp only [run_ite]
  split
  · rfl
  · split
    · rfl
    · split
      · rfl
      · split <;> rfl

/-! ## Writes and calls -/

variable {env} {s : CryptoStore}

/-- A write that the power lasts through. -/
theorem run_nvWrite {site : NvSite} (h : env.powerLoss ≠ some site) (write : CryptoStore → CryptoStore) (s : CryptoStore) :
    (nvWrite env site write).run s = .ok ⟨⟩ (write s) := by
  rw [nvWrite, run_ite, if_neg h]
  rfl

/-- The power goes before the write. -/
theorem run_nvWrite_of_loss {site : NvSite} (h : env.powerLoss = some site) (write : CryptoStore → CryptoStore)
    (s : CryptoStore) : (nvWrite env site write).run s = .error .powerLoss s := by
  rw [nvWrite, run_ite, if_pos h]
  rfl

/-- A call fails or answers, and writes nothing. -/
theorem run_deviceCall {α : Type} (call : DeviceCall) (result : α) (s : CryptoStore) :
    (deviceCall env call result).run s = if env.fails call then .error (.zx .unknown) s else .ok result s := by
  rw [deviceCall, run_ite]
  rfl

/-- Two writes to the slot in use are one. -/
theorem setSlot_setSlot (f g : CryptoSlot → CryptoSlot) (s : CryptoStore) :
    setSlot f (setSlot g s) = setSlot (fun k => f (g k)) s := by
  simp only [setSlot, CryptoStore.slot, Function.update_idem, Function.update_self]

/-- A write to the slot in use leaves the other slot alone. -/
theorem setSlot_ne {slot : KeySlot} (h : slot ≠ s.slotInUse) (f : CryptoSlot → CryptoSlot) :
    (setSlot f s).nCryptoStore slot = s.nCryptoStore slot := setSlotAt_ne h f s

/-! ## Filling a slot -/

/-- The seed of the recovery phrase is written, if it could be derived. -/
theorem run_cryptoDeriveMasterSeed (hpower : PowerHolds env) (s : CryptoStore) :
    (cryptoDeriveMasterSeed P env).run s =
      if env.fails .deriveMasterSeed then .error (.zx .unknown) s
      else .ok ⟨⟩ (setSlot (fun k => { k with masterSeed := seedOf P env.phrase }) s) := by
  rw [cryptoDeriveMasterSeed, run_bind, run_deviceCall]
  cases env.fails .deriveMasterSeed with
  | true => rfl
  | false => exact run_nvWrite (hpower .masterSeed (by decide)) _ s

/-- The hashes of a prime: all of them, or an error when one fails. The induction is on how many are left. -/
theorem run_primeHashes (masterSeed : ByteArr 32) (index n : Nat) :
    ∀ hashIndex (s : CryptoStore), (primeHashes P env masterSeed index n hashIndex).run s =
      if (List.range' hashIndex n).all fun h => !env.fails (.primeHash index h) then
        .ok ((List.range' hashIndex n).flatMap fun h => (P.sha256 (primeData masterSeed index h)).1) s
      else .error (.zx .unknown) s := by
  induction n with
  | zero => exact fun _ _ => rfl
  | succ n ih =>
    intro hashIndex s
    rw [primeHashes, run_bind, run_deviceCall, List.range'_succ, List.all_cons]
    cases hf : env.fails (.primeHash index hashIndex) with
    | true => rfl
    | false =>
      simp only [Bool.false_eq_true, if_false, Bool.not_false, Bool.true_and]
      rw [run_bind, ih]
      cases (List.range' (hashIndex + 1) n).all fun h => !env.fails (.primeHash index h) with
      | true =>
        rw [List.flatMap_cons]
        rfl
      | false => rfl

/-- A prime is derived from the seed of the slot in use. -/
theorem run_cryptoDerivePrime (index : Nat) (s : CryptoStore) :
    (cryptoDerivePrime P env index).run s =
      if hashesSucceed env index then .ok (primeSeed P s.slot.masterSeed index) s else .error (.zx .unknown) s := by
  rw [cryptoDerivePrime, run_bind_of_ok (run_get s)]
  exact run_primeHashes P s.slot.masterSeed index 8 0 s

/-- Both primes are written, or neither. -/
theorem run_cryptoInitPrimes (hpower : PowerHolds env) (s : CryptoStore) :
    (cryptoInitPrimes P env).run s =
      if hashesSucceed env 0 && hashesSucceed env 1 && !env.fails (.nextPrime 0) && !env.fails (.nextPrime 1) then
        .ok ⟨⟩ (setSlot (fun k => { k with pq := primesOf P s.slot.masterSeed }) s)
      else .error (.zx .unknown) s := by
  rw [cryptoInitPrimes, run_bind, run_cryptoDerivePrime]
  cases hashesSucceed env 0 with
  | false => rfl
  | true =>
    simp only [if_true, Bool.true_and]
    rw [run_bind, run_cryptoDerivePrime]
    cases hashesSucceed env 1 with
    | false => rfl
    | true =>
      simp only [if_true, Bool.true_and]
      rw [run_bind, run_deviceCall]
      cases env.fails (.nextPrime 0) with
      | true => rfl
      | false =>
        simp only [Bool.false_eq_true, if_false, Bool.not_false, Bool.true_and]
        rw [run_bind, run_deviceCall]
        cases env.fails (.nextPrime 1) with
        | true => rfl
        | false => exact run_nvWrite (hpower .pq (by decide)) _ s

/-- The flag and both keys are written, or nothing. -/
theorem run_cryptoInitKeys (hpower : PowerHolds env) (s : CryptoStore) :
    (cryptoInitKeys P env).run s =
      if env.fails .generatePair then .error (.zx .unknown) s
      else .ok ⟨⟩ (setSlot (fun k => { k with
        initialized := true, rsaPub := (P.generatePair s.slot.pq).1, rsaPriv := (P.generatePair s.slot.pq).2 }) s) := by
  rw [cryptoInitKeys, run_bind_of_ok (run_get s), run_bind, run_deviceCall]
  cases env.fails .generatePair with
  | true => rfl
  | false =>
    simp only [Bool.false_eq_true, if_false]
    rw [run_bind_of_ok (run_nvWrite (hpower .initialized (by decide)) _ s),
      run_bind_of_ok (run_nvWrite (hpower .rsaPub (by decide)) _ _), run_nvWrite (hpower .rsaPriv (by decide)),
      setSlot_setSlot, setSlot_setSlot]

/-- Writing back what is there changes nothing. -/
theorem setSlot_id (s : CryptoStore) : setSlot (fun k => k) s = s := by
  simp only [setSlot, CryptoStore.slot, Function.update_eq_self]

/-- Filling the slot in use: it holds the keys of the recovery phrase when every call succeeds. Otherwise the flag of the slot is
what it was, and no other slot was touched. -/
theorem run_cryptoInitializeSlot (hpower : PowerHolds env) (s : CryptoStore) :
    (callsSucceed env = true ∧ (cryptoInitializeSlot P env).run s =
        .ok ⟨⟩ { setSlot (fun _ => keySlotOf P (seedOf P env.phrase)) s with deviceInitialized := true }) ∨
      (callsSucceed env = false ∧ ∃ f : CryptoSlot → CryptoSlot, (f s.slot).initialized = s.slot.initialized ∧
        (cryptoInitializeSlot P env).run s = .error (.zx .unknown) (setSlot f s)) := by
  rw [cryptoInitializeSlot, run_bind, run_cryptoDeriveMasterSeed P hpower, callsSucceed]
  cases env.fails .deriveMasterSeed with
  | true => exact Or.inr ⟨rfl, fun k => k, rfl, by rw [setSlot_id]; rfl⟩
  | false =>
    simp only [Bool.false_eq_true, if_false, Bool.not_false, Bool.true_and]
    rw [run_bind, run_cryptoInitPrimes P hpower, setSlot_slot]
    cases hashesSucceed env 0 && hashesSucceed env 1 && !env.fails (.nextPrime 0) && !env.fails (.nextPrime 1) with
    | false => exact Or.inr ⟨rfl, fun k => { k with masterSeed := seedOf P env.phrase }, rfl, rfl⟩
    | true =>
      simp only [if_true, Bool.true_and]
      rw [run_bind, run_cryptoInitKeys P hpower, setSlot_setSlot, setSlot_slot]
      cases env.fails .generatePair with
      | true =>
        exact Or.inr ⟨rfl, fun k => { k with masterSeed := seedOf P env.phrase, pq := primesOf P (seedOf P env.phrase) }, rfl,
          rfl⟩
      | false =>
        refine Or.inl ⟨rfl, ?_⟩
        simp only [Bool.false_eq_true, if_false]
        rw [setSlot_setSlot]
        rfl

/-- Filling a slot does not stop for a loss of power that comes at none of its writes. -/
theorem run_cryptoInitializeSlot_ne_powerLoss (hpower : PowerHolds env) (s s' : CryptoStore) :
    (cryptoInitializeSlot P env).run s ≠ .error .powerLoss s' := by
  intro h
  rcases run_cryptoInitializeSlot P hpower s with ⟨-, hrun⟩ | ⟨-, f, -, hrun⟩
  · rw [hrun] at h
    cases h
  · rw [hrun] at h
    cases h

/-! ## Erasing a slot -/

/-- The writes of `crypto_uninitialized_slot`. -/
def wipeSites (slot : KeySlot) : List NvSite :=
  [.uninitPq slot, .uninitRsaPriv slot, .uninitMasterSeed slot, .uninitInitialized slot]

/-- Two writes to one slot are one. -/
theorem setSlotAt_setSlotAt (slot : KeySlot) (f g : CryptoSlot → CryptoSlot) (s : CryptoStore) :
    setSlotAt slot f (setSlotAt slot g s) = setSlotAt slot (fun k => f (g k)) s := by
  simp only [setSlotAt, Function.update_idem, Function.update_self]

/-- The four writes wipe the slot. -/
theorem run_cryptoUninitializedSlot {slot : KeySlot} (hpower : ∀ site ∈ wipeSites slot, env.powerLoss ≠ some site)
    (s : CryptoStore) : (cryptoUninitializedSlot env slot).run s = .ok ⟨⟩ (setSlotAt slot CryptoSlot.wiped s) := by
  rw [cryptoUninitializedSlot, run_bind_of_ok (run_nvWrite (hpower (.uninitPq slot) (by simp [wipeSites])) _ s),
    run_bind_of_ok (run_nvWrite (hpower (.uninitRsaPriv slot) (by simp [wipeSites])) _ _),
    run_bind_of_ok (run_nvWrite (hpower (.uninitMasterSeed slot) (by simp [wipeSites])) _ _),
    run_nvWrite (hpower (.uninitInitialized slot) (by simp [wipeSites])), setSlotAt_setSlotAt, setSlotAt_setSlotAt,
    setSlotAt_setSlotAt]
  rfl

/-! ## The ends of the initialisation -/

variable (env)

/-- The five ends of the tree, with all that is known there. -/
theorem choice_cases (s : CryptoStore) :
    (choice P env s = .fill .one ∧ (s.nCryptoStore .one).initialized = false) ∨
    (choice P env s = .use .one ∧ (s.nCryptoStore .one).initialized = true ∧ sameMasterseed P env s .one = true) ∨
    (choice P env s = .fill .two ∧ (s.nCryptoStore .one).initialized = true ∧ sameMasterseed P env s .one = false ∧
      (s.nCryptoStore .two).initialized = false) ∨
    (choice P env s = .use .two ∧ (s.nCryptoStore .one).initialized = true ∧ sameMasterseed P env s .one = false ∧
      (s.nCryptoStore .two).initialized = true ∧ sameMasterseed P env s .two = true) ∨
    (choice P env s = .evict ∧ (s.nCryptoStore .one).initialized = true ∧ sameMasterseed P env s .one = false ∧
      (s.nCryptoStore .two).initialized = true ∧ sameMasterseed P env s .two = false) := by
  unfold choice cryptoStoreSlotIsInitialized
  cases (s.nCryptoStore .one).initialized <;> cases sameMasterseed P env s .one <;>
    cases (s.nCryptoStore .two).initialized <;> cases sameMasterseed P env s .two <;> simp

/-- A slot that is taken as it is has its flag up and holds the seed of the recovery phrase. -/
theorem seed_of_choice_use {slot : KeySlot} (hc : choice P env s = .use slot) :
    (s.nCryptoStore slot).initialized = true ∧ (s.nCryptoStore slot).masterSeed = seedOf P env.phrase := by
  have seed : ∀ {slot}, sameMasterseed P env s slot = true → (s.nCryptoStore slot).masterSeed = seedOf P env.phrase :=
    fun h => eq_of_beq (Bool.and_eq_true_iff.1 h).2
  rcases choice_cases P env s with ⟨h, -⟩ | ⟨h, h1, h2⟩ | ⟨h, -⟩ | ⟨h, -, -, h3, h4⟩ | ⟨h, -⟩
  · exact absurd (hc.symm.trans h) nofun
  · cases hc.symm.trans h
    exact ⟨h1, seed h2⟩
  · exact absurd (hc.symm.trans h) nofun
  · cases hc.symm.trans h
    exact ⟨h3, seed h4⟩
  · exact absurd (hc.symm.trans h) nofun

/-- How `crypto_store_init` ends. -/
inductive InitOutcome (s : CryptoStore) : EStateM.Result InitStop CryptoStore Unit → Prop where
  | found {slot : KeySlot} (hc : choice P env s = .use slot) : InitOutcome s (.ok () { s with slotInUse := slot })
  | filled {c : Choice} (hc : choice P env s = c) (hnot : ∀ slot, c ≠ .use slot) (hcalls : callsSucceed env = true) :
      InitOutcome s
        (.ok () { setSlot (fun _ => keySlotOf P (seedOf P env.phrase)) (c.apply s) with deviceInitialized := true })
  | failed {c : Choice} {f : CryptoSlot → CryptoSlot} (hc : choice P env s = c) (hnot : ∀ slot, c ≠ .use slot)
      (hcalls : callsSucceed env = false) (hf : (f (c.apply s).slot).initialized = false) :
      InitOutcome s (.error (.zx .unknown) (setSlot f (c.apply s)))

/-- The slot that is filled was empty, or it was just erased. -/
theorem apply_down {c : Choice} (hc : choice P env s = c) (hnot : ∀ slot, c ≠ .use slot) :
    (c.apply s).slot.initialized = false := by
  rcases choice_cases P env s with ⟨h, hi⟩ | ⟨h, -⟩ | ⟨h, -, -, hi⟩ | ⟨h, -⟩ | ⟨h, -⟩
  · rw [← hc, h]
    exact hi
  · exact absurd (hc.symm.trans h) (hnot _)
  · rw [← hc, h]
    exact hi
  · exact absurd (hc.symm.trans h) (hnot _)
  · rw [← hc, h, Choice.apply]
    change (s.emptied.nCryptoStore .one).initialized = false
    rw [CryptoStore.emptied, setSlotAt_ne (show KeySlot.one ≠ .two by decide), setSlotAt_self]
    rfl

/-- How `crypto_store_init` ends without a loss of power, whatever the calls do. -/
theorem initOutcome (hpower : env.powerLoss = none) (s : CryptoStore) :
    InitOutcome P env s ((cryptoStoreInit P env).run s) := by
  have hfill : PowerHolds env := fun site _ => by rw [hpower]; exact nofun
  have hwipe : ∀ slot, ∀ site ∈ wipeSites slot, env.powerLoss ≠ some site := fun slot site _ => by rw [hpower]; exact nofun
  have hend : ∀ c, choice P env s = c → (∀ slot, c ≠ .use slot) →
      InitOutcome P env s ((cryptoInitializeSlot P env).run (c.apply s)) := by
    intro c hc hnot
    rcases run_cryptoInitializeSlot P hfill (c.apply s) with ⟨hcalls, hrun⟩ | ⟨hcalls, f, hf, hrun⟩
    · rw [hrun]
      exact .filled hc hnot hcalls
    · rw [hrun]
      exact .failed hc hnot hcalls (hf.trans (apply_down P env hc hnot))
  rw [run_cryptoStoreInit]
  cases hc : choice P env s with
  | use slot => exact .found hc
  | fill slot => exact hend _ hc nofun
  | evict =>
    have h := hend _ hc nofun
    rw [Choice.apply, CryptoStore.emptied] at h
    simp only
    rw [run_bind_of_ok (run_cryptoUninitializedSlot (hwipe .one) s),
      run_bind_of_ok (run_cryptoUninitializedSlot (hwipe .two) _)]
    exact h

/-! ## What the choice depends on -/

variable {P env} {phrase : String} {fails : DeviceCall → Bool}

/-- Both slots are given up when their flags are up and neither is known to have the seed of the phrase. -/
theorem choice_eq_evict_iff : choice P env s = .evict ↔ Evicts P env s := by
  rcases choice_cases P env s with ⟨h, h1⟩ | ⟨h, h1, h2⟩ | ⟨h, h1, h2, h3⟩ | ⟨h, h1, h2, h3, h4⟩ | ⟨h, h1, h2, h3, h4⟩
  · refine iff_of_false (by rw [h]; exact nofun) fun he => ?_
    exact absurd (h1.symm.trans (he .one).1) nofun
  · refine iff_of_false (by rw [h]; exact nofun) fun he => ?_
    exact absurd (h2.symm.trans (he .one).2) nofun
  · refine iff_of_false (by rw [h]; exact nofun) fun he => ?_
    exact absurd (h3.symm.trans (he .two).1) nofun
  · refine iff_of_false (by rw [h]; exact nofun) fun he => ?_
    exact absurd (h4.symm.trans (he .two).2) nofun
  · refine iff_of_true h fun slot => ?_
    cases slot with
    | one => exact ⟨h1, h2⟩
    | two => exact ⟨h3, h4⟩

/-- The choice does not depend on when the power goes. -/
theorem choice_powerLoss (powerLoss : Option NvSite) :
    choice P ⟨phrase, fails, powerLoss⟩ s = choice P ⟨phrase, fails, none⟩ s := rfl

/-- An initialisation that does not erase leaves an initialised slot as it is. -/
theorem kept_of_ne_evict (hpower : env.powerLoss = none) (hc : choice P env s ≠ .evict) {slot : KeySlot}
    (hup : (s.nCryptoStore slot).initialized = true) :
    (stateAfter ((cryptoStoreInit P env).run s)).nCryptoStore slot = s.nCryptoStore slot := by
  have hne : ∀ {slot'}, choice P env s = .fill slot' → slot ≠ slot' := by
    rintro slot' hc' rfl
    have hdown := apply_down P _ hc' nofun
    exact absurd (hup.symm.trans hdown) nofun
  have hout := initOutcome P env hpower s
  generalize (cryptoStoreInit P env).run s = r at hout
  cases hout with
  | found _ => rfl
  | @filled c hc' hnot _ =>
    cases c with
    | use slot' => exact absurd rfl (hnot slot')
    | fill slot' =>
      exact setSlot_ne (s := Choice.apply s (.fill slot')) (hne hc') fun _ => keySlotOf P (seedOf P env.phrase)
    | evict => exact absurd hc' hc
  | @failed c f hc' hnot _ _ =>
    cases c with
    | use slot' => exact absurd rfl (hnot slot')
    | fill slot' => exact setSlot_ne (s := Choice.apply s (.fill slot')) (hne hc') _
    | evict => exact absurd hc' hc

end

end LedgerArweave
