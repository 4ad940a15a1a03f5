import LedgerArweave.Platform
import LedgerArweave.Lib.Program
import Mathlib.Logic.Function.Basic

/-!
# The key slots

`crypto_store.c`: the two slots in flash, what selects and fills them, and the signature that waits in flash to be handed out.
Every flash write of the initialisation has a name (`NvSite`), so that a run can lose power right before any of them; every
call to the operating system has one too (`DeviceCall`), so that a run can make any of them fail. A site and a call are met at
most once in one `crypto_store_init`.
-/

namespace LedgerArweave

open Lib

/-- `KEY_SLOT_1` and `KEY_SLOT_2`. -/
inductive KeySlot where
  | one | two
  deriving DecidableEq, Repr

/-- A member of `crypto_store_t`. -/
structure CryptoSlot where
  masterSeed : ByteArr 32
  pq : ByteArr 512
  rsaPub : RsaPublicKey
  rsaPriv : RsaPrivateKey
  initialized : Bool
  deriving DecidableEq, Repr

/-- A slot of erased flash. -/
def CryptoSlot.erased : CryptoSlot := ⟨ByteArr.zero 32, ByteArr.zero 512, RsaPublicKey.zero, RsaPrivateKey.zero, false⟩

/-- The globals of `crypto_store.c`: three in RAM, two in flash. -/
structure CryptoStore where
  slotInUse : KeySlot
  deviceInitialized : Bool
  signatureSet : Nat
  nCryptoStore : KeySlot → CryptoSlot
  nCryptoSig : KeySlot → ByteArr 512

/-- The slot in use. -/
def CryptoStore.slot (s : CryptoStore) : CryptoSlot := s.nCryptoStore s.slotInUse

/-- RAM as a boot leaves it, over the flash as it was. -/
def CryptoStore.reset (s : CryptoStore) : CryptoStore :=
  { s with slotInUse := .one, deviceInitialized := false, signatureSet := 0 }

/-- The store of a device whose flash was never written. -/
def CryptoStore.erased : CryptoStore := ⟨.one, false, 0, fun _ => CryptoSlot.erased, fun _ => ByteArr.zero 512⟩

/-! ## The signature -/

/-- `crypto_store_signature`. -/
def cryptoStoreSignature (sig : ByteArr 512) (s : CryptoStore) : CryptoStore :=
  { s with nCryptoSig := Function.update s.nCryptoSig s.slotInUse sig, signatureSet := 1 }

/-- `is_sig_set`. -/
def isSigSet (s : CryptoStore) : Bool := s.signatureSet = 1

/-- `crypto_signature_part`. -/
def cryptoSignaturePart (index : Nat) : EStateM ZxErr CryptoStore (List UInt8) := do
  let s ← get
  if s.signatureSet ≠ 1 then throw .invalidCryptoSettings
  else if index > 1 then throw .outOfBounds
  else
    let sig := slice (s.nCryptoSig s.slotInUse).1 (index * rsaModulusHalve) rsaModulusHalve
    if index = 1 then
      modify fun s => { s with
        nCryptoSig := Function.update s.nCryptoSig s.slotInUse (ByteArr.zero 512), signatureSet := 0 }
    return sig

/-! ## The keys -/

/-- `crypto_store_slot_is_initialized`. -/
def cryptoStoreSlotIsInitialized (s : CryptoStore) (slot : KeySlot) : Bool := (s.nCryptoStore slot).initialized

/-- `crypto_store_is_initialized`. -/
def cryptoStoreIsInitialized (s : CryptoStore) : Bool := s.slot.initialized

/-- `crypto_store_get_pubkey`. -/
def cryptoStoreGetPubkey (s : CryptoStore) : Option RsaPublicKey :=
  if cryptoStoreIsInitialized s then some s.slot.rsaPub else none

/-- `crypto_store_get_privkey`. -/
def cryptoStoreGetPrivkey (s : CryptoStore) : Option RsaPrivateKey :=
  if cryptoStoreIsInitialized s then some s.slot.rsaPriv else none

/-- `crypto_pubkey_part`. -/
def cryptoPubkeyPart (s : CryptoStore) (index : Nat) : Except ZxErr (List UInt8) :=
  if !cryptoStoreIsInitialized s then .error .invalidCryptoSettings
  else if index > 1 then .error .outOfBounds
  else match cryptoStoreGetPubkey s with
    | none => .error .invalidCryptoSettings
    | some rsaPubkey => .ok (slice rsaPubkey.n.1 (index * rsaModulusHalve) rsaModulusHalve)

/-! ## Initialisation -/

/-- The calls of the initialisation to the operating system. -/
inductive DeviceCall where
  | deriveMasterSeed
  | sameMasterseed (slot : KeySlot)
  | primeHash (index hashIndex : Nat)
  | nextPrime (index : Nat)
  | generatePair
  deriving DecidableEq, Repr

/-- The flash writes of the initialisation. -/
inductive NvSite where
  | masterSeed | pq | initialized | rsaPub | rsaPriv
  | uninitPq (slot : KeySlot) | uninitRsaPriv (slot : KeySlot) | uninitMasterSeed (slot : KeySlot)
  | uninitInitialized (slot : KeySlot)
  deriving DecidableEq, Repr

/-- What one run of the initialisation meets: the recovery phrase of the device, the calls that fail, and the write right
before which the device loses power, if any. -/
structure InitEnv where
  phrase : String
  fails : DeviceCall → Bool
  powerLoss : Option NvSite

/-- Why the initialisation stops early. -/
inductive InitStop where
  | zx (e : ZxErr)
  | powerLoss
  deriving DecidableEq, Repr

abbrev InitM : Type → Type := EStateM InitStop CryptoStore

section

variable (P : Platform) (env : InitEnv)

/-- `MEMCPY_NV` and `SET_NV`: one write to flash. -/
def nvWrite (site : NvSite) (write : CryptoStore → CryptoStore) : InitM Unit :=
  if env.powerLoss = some site then throw .powerLoss else modify write

/-- A call to the operating system; the caller turns every failure into `zxerr_unknown`. -/
def deviceCall {α : Type} (call : DeviceCall) (result : α) : InitM α :=
  if env.fails call then throw (.zx .unknown) else pure result

/-- Write to the slot in use. -/
def setSlot (f : CryptoSlot → CryptoSlot) (s : CryptoStore) : CryptoStore :=
  { s with nCryptoStore := Function.update s.nCryptoStore s.slotInUse (f s.slot) }

/-- The part of the derived bytes the app keeps as the master seed. -/
def seedOf (phrase : String) : ByteArr 32 := ByteArr.ofList masterSeedLen ((P.deriveBip32 phrase).1.take masterSeedLen)

/-- `crypto_deriveMasterSeed`. -/
def cryptoDeriveMasterSeed : InitM Unit := do
  let masterSeed ← deviceCall env .deriveMasterSeed (seedOf P env.phrase)
  nvWrite env .masterSeed (setSlot fun k => { k with masterSeed := masterSeed })

/-- `same_masterseed`. -/
def sameMasterseed (s : CryptoStore) (slot : KeySlot) : Bool :=
  !env.fails (.sameMasterseed slot) && (s.nCryptoStore slot).masterSeed == seedOf P env.phrase

/-- The bytes `crypto_derivePrime` hashes. -/
def primeData (masterSeed : ByteArr 32) (index hashIndex : Nat) : List UInt8 :=
  [0, UInt8.ofNat index] ++ masterSeed.1 ++ [UInt8.ofNat hashIndex]

/-- The loop of `crypto_derivePrime`: `n` hashes from `hashIndex` on. -/
def primeHashes (masterSeed : ByteArr 32) (index : Nat) : (n hashIndex : Nat) → InitM (List UInt8)
  | 0, _ => return []
  | n + 1, hashIndex => do
    let hash ← deviceCall env (.primeHash index hashIndex) (P.sha256 (primeData masterSeed index hashIndex))
    let rest ← primeHashes masterSeed index n (hashIndex + 1)
    return hash.1 ++ rest

/-- `crypto_derivePrime`: the number of hashes leaves no remainder. -/
def cryptoDerivePrime (index : Nat) : InitM (List UInt8) := do
  let s ← get
  primeHashes P env s.slot.masterSeed index (rsaPrimeLen * 8 / 256) 0

/-- `*pq |= 0x80`. -/
def setTopBit (prime : List UInt8) : List UInt8 :=
  match prime with
  | [] => []
  | b :: rest => (b ||| 0x80) :: rest

/-- `crypto_init_primes`. -/
def cryptoInitPrimes : InitM Unit := do
  let p ← cryptoDerivePrime P env 0
  let q ← cryptoDerivePrime P env 1
  let p ← deviceCall env (.nextPrime 0) (P.nextPrime (ByteArr.ofList 256 (setTopBit p)))
  let q ← deviceCall env (.nextPrime 1) (P.nextPrime (ByteArr.ofList 256 (setTopBit q)))
  nvWrite env .pq (setSlot fun k => { k with pq := ByteArr.ofList 512 (p.1 ++ q.1) })

/-- `crypto_init_keys`. -/
def cryptoInitKeys : InitM Unit := do
  let s ← get
  let keys ← deviceCall env .generatePair (P.generatePair s.slot.pq)
  nvWrite env .initialized (setSlot fun k => { k with initialized := true })
  nvWrite env .rsaPub (setSlot fun k => { k with rsaPub := keys.1 })
  nvWrite env .rsaPriv (setSlot fun k => { k with rsaPriv := keys.2 })

/-- `crypto_initialize_slot`. -/
def cryptoInitializeSlot : InitM Unit := do
  cryptoDeriveMasterSeed P env
  cryptoInitPrimes P env
  cryptoInitKeys P env
  modify fun s => { s with deviceInitialized := true }

/-- Write to a slot given by its number. -/
def setSlotAt (slot : KeySlot) (f : CryptoSlot → CryptoSlot) (s : CryptoStore) : CryptoStore :=
  { s with nCryptoStore := Function.update s.nCryptoStore slot (f (s.nCryptoStore slot)) }

/-- `crypto_uninitialized_slot`. -/
def cryptoUninitializedSlot (slot : KeySlot) : InitM Unit := do
  nvWrite env (.uninitPq slot) (setSlotAt slot fun k => { k with pq := ByteArr.zero 512 })
  nvWrite env (.uninitRsaPriv slot) (setSlotAt slot fun k => { k with rsaPriv := RsaPrivateKey.zero })
  nvWrite env (.uninitMasterSeed slot) (setSlotAt slot fun k => { k with masterSeed := ByteArr.zero 32 })
  nvWrite env (.uninitInitialized slot) (setSlotAt slot fun k => { k with initialized := false })

/-- `slot_in_use = …`. -/
def useSlot (slot : KeySlot) : InitM Unit := modify fun s => { s with slotInUse := slot }

/-- `crypto_store_init`. -/
def cryptoStoreInit : InitM Unit := do
  let s ← get
  if !cryptoStoreSlotIsInitialized s .one then
    useSlot .one
    cryptoInitializeSlot P env
  else if sameMasterseed P env s .one then
    useSlot .one
  else if !cryptoStoreSlotIsInitialized s .two then
    useSlot .two
    cryptoInitializeSlot P env
  else if sameMasterseed P env s .two then
    useSlot .two
  else
    cryptoUninitializedSlot env .one
    cryptoUninitializedSlot env .two
    useSlot .one
    cryptoInitializeSlot P env

/-- `crypto_store_init_test`. -/
def cryptoStoreInitTest (s : CryptoStore) : Bool × CryptoStore :=
  if !cryptoStoreSlotIsInitialized s .one then (false, s)
  else if sameMasterseed P env s .one then (true, { s with slotInUse := .one })
  else if !cryptoStoreSlotIsInitialized s .two then (false, s)
  else if sameMasterseed P env s .two then (true, { s with slotInUse := .two })
  else (false, s)

/-- The start of `main`: a boot resets RAM and looks for a slot of the recovery phrase. -/
def boot (s : CryptoStore) : CryptoStore :=
  let r := cryptoStoreInitTest P env s.reset
  { r.2 with deviceInitialized := r.1 }

end

/-! ## What the initialisation leaves alone -/

/-- The slot in use after a write to it. -/
@[simp] theorem setSlot_slot (f : CryptoSlot → CryptoSlot) (s : CryptoStore) : (setSlot f s).slot = f s.slot := by
  simp [CryptoStore.slot, setSlot]

/-- The slot in use is a slot given by its number. -/
theorem setSlot_eq_setSlotAt (f : CryptoSlot → CryptoSlot) (s : CryptoStore) : setSlot f s = setSlotAt s.slotInUse f s := rfl

/-- A slot after a write to it. -/
@[simp] theorem setSlotAt_self (slot : KeySlot) (f : CryptoSlot → CryptoSlot) (s : CryptoStore) :
    (setSlotAt slot f s).nCryptoStore slot = f (s.nCryptoStore slot) := by
  simp [setSlotAt]

/-- A write to one slot leaves the other alone. -/
theorem setSlotAt_ne {slot other : KeySlot} (h : other ≠ slot) (f : CryptoSlot → CryptoSlot) (s : CryptoStore) :
    (setSlotAt slot f s).nCryptoStore other = s.nCryptoStore other := by
  simp [setSlotAt, h]

/-- What holds of a store whatever its slots, the slot in use and `device_initialized` are. -/
structure SlotFree (I : CryptoStore → Prop) : Prop where
  slots : ∀ slot f s, I s → I (setSlotAt slot f s)
  use : ∀ slot s, I s → I { s with slotInUse := slot }
  ready : ∀ s, I s → I { s with deviceInitialized := true }

section

variable (P : Platform) (env : InitEnv) {I : CryptoStore → Prop}

/-- A write to flash keeps what the write keeps, also when the power goes right before it. -/
theorem keeps_nvWrite {site : NvSite} {write : CryptoStore → CryptoStore} (h : ∀ s, I s → I (write s)) :
    Keeps I (nvWrite env site write) := .ite .throw (.modify h)

/-- A call to the operating system writes nothing. -/
theorem keeps_deviceCall {α : Type} {call : DeviceCall} {result : α} : Keeps I (deviceCall env call result) :=
  .ite .throw .pure

/-- Nor do the hashes of a prime, by induction on their number. -/
theorem keeps_primeHashes (masterSeed : ByteArr 32) (index : Nat) :
    ∀ n hashIndex, Keeps I (primeHashes P env masterSeed index n hashIndex) := by
  intro n
  induction n with
  | zero => exact fun _ => .pure
  | succ n ih => exact fun hashIndex => .bind (keeps_deviceCall env) fun _ => .bind (ih _) fun _ => .pure

/-- Deriving a prime only reads the seed. -/
theorem keeps_cryptoDerivePrime (index : Nat) : Keeps I (cryptoDerivePrime P env index) :=
  .bind .get fun _ => keeps_primeHashes P env _ _ _ _

/-- Filling a slot keeps what every write to the slot in use keeps, and `device_initialized` at the end. -/
theorem keeps_cryptoInitializeSlot (write : ∀ f s, I s → I (setSlot f s))
    (ready : ∀ s, I s → I { s with deviceInitialized := true }) :
    Keeps I (cryptoInitializeSlot P env) := by
  refine .bind ?_ fun _ => .bind ?_ fun _ => .bind ?_ fun _ => .modify ready
  · exact .bind (keeps_deviceCall env) fun _ => keeps_nvWrite env (write _)
  · exact .bind (keeps_cryptoDerivePrime P env 0) fun _ => .bind (keeps_cryptoDerivePrime P env 1) fun _ =>
      .bind (keeps_deviceCall env) fun _ => .bind (keeps_deviceCall env) fun _ => keeps_nvWrite env (write _)
  · exact .bind .get fun _ => .bind (keeps_deviceCall env) fun _ => .bind (keeps_nvWrite env (write _)) fun _ =>
      .bind (keeps_nvWrite env (write _)) fun _ => keeps_nvWrite env (write _)

/-- Erasing a slot keeps what does not depend on the slots. -/
theorem keeps_cryptoUninitializedSlot (hI : SlotFree I) (slot : KeySlot) : Keeps I (cryptoUninitializedSlot env slot) :=
  .bind (keeps_nvWrite env (hI.slots _ _)) fun _ => .bind (keeps_nvWrite env (hI.slots _ _)) fun _ =>
    .bind (keeps_nvWrite env (hI.slots _ _)) fun _ => keeps_nvWrite env (hI.slots _ _)

/-- The initialisation keeps what does not depend on the slots: the signature, in particular. -/
theorem keeps_cryptoStoreInit (hI : SlotFree I) : Keeps I (cryptoStoreInit P env) := by
  have use : ∀ slot, Keeps I (useSlot slot) := fun slot => .modify (hI.use slot)
  have fill : Keeps I (cryptoInitializeSlot P env) :=
    keeps_cryptoInitializeSlot P env (fun f s hs => hI.slots s.slotInUse f s hs) hI.ready
  refine .bind .get fun s => .ite ?_ (.ite (use _) (.ite ?_ (.ite (use _) ?_)))
  · exact .bind (use _) fun _ => fill
  · exact .bind (use _) fun _ => fill
  · exact .bind (keeps_cryptoUninitializedSlot env hI _) fun _ => .bind (keeps_cryptoUninitializedSlot env hI _) fun _ =>
      .bind (use _) fun _ => fill

end

end LedgerArweave
