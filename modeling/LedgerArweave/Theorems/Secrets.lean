import LedgerArweave.Demo
import LedgerArweave.Lib.Commutes

/-!
# The secrets stay on the device

The master seeds, the primes and the private keys of a device that is initialised are used for nothing but signatures: with
other secrets that sign alike, every run answers the same bytes and leaves the same state but for the secrets.
-/

namespace LedgerArweave

open Lib

/-- What a slot keeps to itself. -/
structure Secrets where
  masterSeed : ByteArr 32
  pq : ByteArr 512
  rsaPriv : RsaPrivateKey

/-- A store whose slots have other secrets. -/
def CryptoStore.withSecrets (k : KeySlot → Secrets) (s : CryptoStore) : CryptoStore :=
  { s with nCryptoStore := fun slot =>
      { s.nCryptoStore slot with masterSeed := (k slot).masterSeed, pq := (k slot).pq, rsaPriv := (k slot).rsaPriv } }

/-- A device with other secrets. -/
def Device.withSecrets (k : KeySlot → Secrets) (d : Device) : Device := { d with store := d.store.withSecrets k }

namespace SecretsAux

/-- A handler's state on a device with other secrets. -/
def frame (k : KeySlot → Secrets) (f : Frame) : Frame := { f with dev := f.dev.withSecrets k }

section

variable (P : Platform) (k : KeySlot → Secrets)

/-! ## The store -/

/-- The address is that of the public key. -/
theorem cryptoFillAddress_withSecrets (s : CryptoStore) (bufferLen : Nat) :
    cryptoFillAddress P (s.withSecrets k) bufferLen = cryptoFillAddress P s bufferLen := rfl

/-- The parts of the key are those of the public key. -/
theorem cryptoGetpubkeyPart_withSecrets (s : CryptoStore) (bufferLen index : Nat) :
    cryptoGetpubkeyPart (s.withSecrets k) bufferLen index = cryptoGetpubkeyPart s bufferLen index := rfl

/-- The parse and the validation of a transaction compare its owner with the public key. -/
theorem txParse_withSecrets (s : CryptoStore) (expert : Bool) : txParse P (s.withSecrets k) expert = txParse P s expert := rfl

/-- Handing out a part of the signature does not look at the secrets. -/
theorem commutes_getsignaturePart (bufferLen index : Nat) :
    Commutes (CryptoStore.withSecrets k) (cryptoGetsignaturePart bufferLen index) := by
  refine .get_bind (fun _ => rfl) fun s => .ite .throw (.get_bind (fun _ => rfl) fun s => .ite .throw (.ite .throw ?_))
  exact .ite (.bind (.modify fun _ => rfl) fun _ => .pure) .pure

/-- The same for a part of the key, as the handler calls for it. -/
theorem commutes_getpubkeyPart (bufferLen index : Nat) :
    Commutes (CryptoStore.withSecrets k) (do
      let s ← get
      match cryptoGetpubkeyPart s bufferLen index with
      | .ok bytes => pure bytes
      | .error e => throw e : EStateM ZxErr CryptoStore (List UInt8)) := by
  refine .get_bind (fun s => by rw [cryptoGetpubkeyPart_withSecrets]) fun s => ?_
  cases cryptoGetpubkeyPart s bufferLen index with
  | ok bytes => exact .pure
  | error e => exact .throw

/-! ## The handlers -/

/-- The length of the answer has nothing to do with the secrets. -/
theorem commutes_setTx (n : Nat) : Commutes (frame k) (setTx n) := .modify fun _ => rfl

/-- Clearing the APDU buffer has nothing to do with them. -/
theorem commutes_zeroIo : Commutes (frame k) zeroIo := .modify fun _ => rfl

/-- Writing an answer has nothing to do with them either, once its bytes are given. -/
theorem commutes_writeIo (bytes : List UInt8) : Commutes (frame k) (writeIo bytes) := .modify fun _ => rfl

/-- A review is opened whatever they are. -/
theorem commutes_openReview (r : Review) : Commutes (frame k) (openReview r) := .modify fun _ => rfl

/-- A program on the upload cannot reach the secrets. -/
theorem commutes_onUpload {ε α : Type} (x : EStateM ε Upload α) :
    Commutes (frame k) (zoom Frame.upload Frame.setUpload x) := (Commutes.id x).zoom (fun _ => rfl) fun _ _ => rfl

/-- A handler for parts lets no secret through that the function behind it does not let through. -/
theorem commutes_handlePart {part : (bufferLen index : Nat) → EStateM ZxErr CryptoStore (List UInt8)}
    (h : ∀ bufferLen index, Commutes (CryptoStore.withSecrets k) (part bufferLen index)) :
    Commutes (frame k) (handlePart part) := by
  refine .bind (commutes_setTx k 0) fun _ => .get_bind (fun _ => rfl) fun f => .ite .throw ?_
  refine .bind (commutes_zeroIo k) fun _ => .bind (.attempt ((h _ _).zoom (fun _ => rfl) fun _ _ => rfl)) fun r => ?_
  cases r with
  | error e => exact .bind (commutes_setTx k 0) fun _ => .throw
  | ok bytes => exact .bind (commutes_writeIo k bytes) fun _ => .bind (commutes_setTx k 256) fun _ => .throw

/-- `GET_ADDR` hashes the modulus, which is public. -/
theorem commutes_handleGetAddress : Commutes (frame k) (handleGetAddress P) := by
  refine .bind (commutes_setTx k 0) fun _ => .get_bind (fun f => ?_) fun f => .ite .throw ?_
  · rw [show (frame k f).dev.store = f.dev.store.withSecrets k from rfl, cryptoFillAddress_withSecrets]
    rfl
  refine .bind (commutes_zeroIo k) fun _ => .bind (.modify fun _ => rfl) fun _ => ?_
  cases cryptoFillAddress P f.dev.store (ioApduBufferSize - 2) with
  | error e => exact .throw
  | ok addrStr =>
    refine .bind (commutes_writeIo k addrStr) fun _ => .bind (.modify fun _ => rfl) fun _ => ?_
    exact .ite (commutes_openReview k .address) (.bind (commutes_setTx k _) fun _ => .throw)

/-- `SIGN` collects and parses; the owner it compares with is the public key in use. -/
theorem commutes_handleSign (rx : Nat) : Commutes (frame k) (handleSign P rx) := by
  refine .get_bind (fun f => ?_) fun f => .bind (commutes_onUpload k _) fun last => .ite .throw ?_
  · rw [show (frame k f).dev.store = f.dev.store.withSecrets k from rfl, txParse_withSecrets]
    rfl
  refine .bind (.attempt (commutes_onUpload k _)) fun r => ?_
  cases r with
  | error e => exact .bind (commutes_writeIo k _) fun _ => .bind (.modify fun _ => rfl) fun _ => .throw
  | ok _ => exact commutes_openReview k .txn

/-- Every command, by the handler it is given to. -/
theorem commutes_dispatch (rx : Nat) : Commutes (frame k) (dispatch P rx) := by
  have pin : ∀ {h : Handler Unit}, Commutes (frame k) h → Commutes (frame k) (do checkPinValidated P; h) := fun hh =>
    .bind (.get_bind (fun _ => rfl) fun _ => .ite .pure .throw) fun _ => hh
  refine .get_bind (fun _ => rfl) fun f => .ite .throw (.ite .throw (.ite .throw (.ite ?_ ?_)))
  · exact .bind (commutes_writeIo k _) fun _ => .bind (.modify fun _ => rfl) fun _ => .throw
  refine .ite (pin (commutes_handleGetAddress P k)) (.ite (pin (commutes_handleSign P k rx)) (.ite ?_ (.ite ?_ .throw)))
  · exact pin (commutes_handlePart k (commutes_getsignaturePart k))
  · exact pin (commutes_handlePart k (commutes_getpubkeyPart k))

/-- An APDU is answered alike whatever the secrets are, and the device afterwards differs in them only. -/
theorem receive_withSecrets (a : Apdu) (d : Device) :
    receive P a (d.withSecrets k) = ((receive P a d).1.withSecrets k, (receive P a d).2) := by
  have hrun := commutes_dispatch P k a.1.length (received d a)
  have hreceive : ∀ d, receive P a d = outcome (finish ((dispatch P a.1.length).run (received d a))) := fun _ => rfl
  rw [hreceive, hreceive, show received (d.withSecrets k) a = frame k (received d a) from rfl, hrun]
  cases (dispatch P a.1.length).run (received d a) with
  | ok _ f => rfl
  | error e f => rfl

/-! ## The review -/

/-- The private key of the slot in use signs as another does. -/
def SignsAlike (s : CryptoStore) : Prop :=
  ∀ salt digest, P.rsaSign (k s.slotInUse).rsaPriv salt digest = P.rsaSign s.slot.rsaPriv salt digest

variable {P k}

/-- Keys that sign alike give the same signature. -/
theorem run_cryptoSign_withSecrets {s : CryptoStore} (h : SignsAlike P k s) (u : Upload) (salt signatureMaxlen : Nat) :
    (cryptoSign P u salt signatureMaxlen).run (s.withSecrets k) =
      mapState (CryptoStore.withSecrets k) ((cryptoSign P u salt signatureMaxlen).run s) := by
  have hinit : cryptoStoreIsInitialized (s.withSecrets k) = cryptoStoreIsInitialized s := rfl
  unfold cryptoSign
  rw [run_bind_of_ok (run_get _), run_bind_of_ok (run_get _), hinit]
  cases hi : cryptoStoreIsInitialized s with
  | false => rfl
  | true =>
    have hkey : cryptoStoreGetPrivkey (s.withSecrets k) = some (k s.slotInUse).rsaPriv := by
      rw [cryptoStoreGetPrivkey, hinit, hi]
      rfl
    have hkey' : cryptoStoreGetPrivkey s = some s.slot.rsaPriv := by
      rw [cryptoStoreGetPrivkey, hi]
      rfl
    by_cases hlen : signatureMaxlen < sha384DigestLen
    · simp only [if_pos hlen]
      rfl
    · simp only [if_neg hlen]
      cases parserGetDigest P.sha384 u.buffering.data u.parserTxObj sha384DigestLen with
      | error e => rfl
      | ok digest =>
        simp only [hkey, hkey', h salt]
        cases P.rsaSign s.slot.rsaPriv salt (P.sha256 digest) with
        | none => rfl
        | some sig => rfl

/-- An approval is answered alike when the keys in use sign alike. -/
theorem approve_withSecrets {d : Device} (h : SignsAlike P k d.store) (salt : Nat) :
    approve P salt (d.withSecrets k) = ((approve P salt d).1.withSecrets k, (approve P salt d).2) := by
  unfold approve
  rw [show (d.withSecrets k).review = d.review from rfl]
  cases d.review with
  | none => rfl
  | some r =>
    cases r with
    | address => rfl
    | txn =>
      have hrun := run_cryptoSign_withSecrets h d.upload salt (ioApduBufferSize - 3)
      simp only [appSign, Device.withSecrets, hrun]
      cases (cryptoSign P d.upload salt (ioApduBufferSize - 3)).run d.store with
      | ok digest s => rfl
      | error e s => rfl

/-! ## A step -/

/-- A device that is initialised, and whose other secrets sign alike. -/
structure SecretsInv (P : Platform) (k : KeySlot → Secrets) (d : Device) : Prop where
  ready : d.store.deviceInitialized = true
  alike : SignsAlike P k d.store

/-- The initialisation is offered by a device without a key only. -/
theorem step_storeInit {d : Device} (h : d.store.deviceInitialized = true) (phrase : String) (fails : DeviceCall → Bool) :
    d.step P (.storeInit phrase fails) = (d, none) := if_pos h

/-- A ready device stays ready, with the same slot in use, so that the keys in use go on signing alike. -/
theorem SecretsInv.step {d : Device} (h : SecretsInv P k d) (ev : Event) : SecretsInv P k (d.step P ev).1 := by
  by_cases hinit : ∃ phrase fails, ev = .storeInit phrase fails
  · obtain ⟨phrase, fails, rfl⟩ := hinit
    rw [step_storeInit h.ready]
    exact h
  · obtain ⟨hready, hslots, huse⟩ := @step_keys P d ev fun phrase fails he => hinit ⟨phrase, fails, he⟩
    refine ⟨hready.trans h.ready, ?_⟩
    unfold SignsAlike CryptoStore.slot
    rw [hslots, huse]
    exact h.alike

/-- One event. -/
theorem step_withSecrets {d : Device} (ev : Event) (h : SecretsInv P k d) :
    (d.withSecrets k).step P ev = ((d.step P ev).1.withSecrets k, (d.step P ev).2) := by
  cases ev with
  | apdu a => exact receive_withSecrets P k a d
  | approve salt => exact approve_withSecrets h.alike salt
  | reject =>
    change reject (d.withSecrets k) = ((reject d).1.withSecrets k, (reject d).2)
    unfold reject
    rw [show (d.withSecrets k).review = d.review from rfl]
    cases d.review <;> rfl
  | storeInit phrase fails =>
    have hready : (d.withSecrets k).store.deviceInitialized = true := h.ready
    rw [step_storeInit h.ready, step_storeInit hready]
  | setExpert on => rfl
  | setPin validated => rfl

end

end SecretsAux

open SecretsAux

/-- Two devices that differ in their master seeds, primes and private keys only, one of them initialised, and whose keys in use
sign alike: over every order of APDUs, approvals, rejections and settings they answer the same bytes at every step, and their
states differ in the secrets only. -/
theorem secrets_stay_inside (P : Platform) (k : KeySlot → Secrets) (d : Device) (hready : d.store.deviceInitialized = true)
    (halike : ∀ salt digest, P.rsaSign (k d.store.slotInUse).rsaPriv salt digest = P.rsaSign d.store.slot.rsaPriv salt digest)
    (events : List Event) :
    (trace (Device.step P) (d.withSecrets k) events).map Entry.output = (trace (Device.step P) d events).map Entry.output ∧
      (trace (Device.step P) (d.withSecrets k) events).map Entry.after =
        (trace (Device.step P) d events).map fun e => e.after.withSecrets k := by
  have htrace := trace_map (I := SecretsInv P k) (fun d ev h => h.step ev) (fun d ev h => step_withSecrets ev h) events d
    ⟨hready, halike⟩
  rw [htrace, List.map_map, List.map_map]
  exact ⟨rfl, rfl⟩

/-- A device that signs the demo transaction, with other seeds and primes: the platform of the demo signs with every key. -/
theorem secrets_stay_inside_demo :
    let k : KeySlot → Secrets := fun _ =>
      ⟨ByteArr.ofList 32 [1], ByteArr.ofList 512 [2], ⟨512, ByteArr.ofList 512 [3], ByteArr.zero 512⟩⟩
    let events := Demo.upload Demo.tx.message ++ [.approve 0]
    (trace (Device.step Demo.platform) ((Demo.device 1000).withSecrets k) events).map Entry.output =
      (trace (Device.step Demo.platform) (Demo.device 1000) events).map Entry.output :=
  (secrets_stay_inside Demo.platform _ (Demo.device 1000) rfl (fun _ _ => rfl) _).1

end LedgerArweave
