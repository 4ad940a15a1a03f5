import LedgerArweave.Theorems.Refinement

/-!
# Old memory

An app that runs for long has bytes of earlier transactions behind those it collects, a parsed transaction that was refused, an
APDU buffer with an old answer, and signatures in the slots of other keys. A signer has none of it, so a host cannot tell: two
devices in one state of a signer answer alike, whatever else is in their memory.
-/

namespace LedgerArweave

open Lib

/-- Devices with the same keys, mode and lock, transaction buffers of the same size, the same upload (started or not, with the
same room and the same collected bytes), the same review and the same waiting signature. What lies behind the collected bytes,
the parsed objects, the APDU buffer and old signatures in the flash may differ. -/
structure SameToHost (d d' : Device) : Prop where
  keys : KeysKept d.store d'.store
  capacity : d'.upload.buffering.data.length = d.upload.buffering.data.length
  started : d'.upload.txInitialized = d.upload.txInitialized
  size : d'.upload.buffering.size = d.upload.buffering.size
  collected : d'.upload.buffering.content = d.upload.buffering.content
  review : d'.review = d.review
  signature : pendingSignature d'.store = pendingSignature d.store
  expert : d'.expert = d.expert
  pin : d'.pinValidated = d.pinValidated

/-- Devices in one state of a signer are the same to a host. -/
theorem Embodies.sameToHost {P : Platform} {d₀ d d' : Device} {s : SignerState TxFields} (h : Embodies P d₀ d s)
    (h' : Embodies P d₀ d' s) : SameToHost d d' where
  keys := ⟨h'.keys.ready.trans h.keys.ready.symm, h'.keys.slots.trans h.keys.slots.symm, h'.keys.use.trans h.keys.use.symm⟩
  capacity := h'.capacity.trans h.capacity.symm
  started := h'.started.trans h.started.symm
  size := h'.size.trans h.size.symm
  collected := h'.collected.trans h.collected.symm
  review := (RefinementAux.review_eq h').trans (RefinementAux.review_eq h).symm
  signature := h'.signature.trans h.signature.symm
  expert := h'.expert.trans h.expert.symm
  pin := h'.locked.trans h.locked.symm

/-- What lies in old memory is never seen: devices that are initialised and hold a key, have no review open and are the same to a
host answer every run, in which the host waits for the decisions of the user and every APDU has a class, with the same bytes, and
they are the same to it at the end. Their transaction buffers are of less than 65536 bytes, and the hash function of the digest
always answers. -/
theorem old_memory_unseen (P : Platform) {H : List UInt8 → ByteArr 48} {d d' : Device}
    (hhash : ∀ x, P.sha384 x = .ok (H x)) (hready : d.store.deviceInitialized = true)
    (hkey : d.store.slot.initialized = true) (hvalid : d.upload.buffering.Valid) (hvalid' : d'.upload.buffering.Valid)
    (hsmall : d.upload.buffering.data.length < 65536) (hreview : d.review = none) (hsame : SameToHost d d')
    (events : List Event) (hturn : ∀ e ∈ trace (Device.step P) d events, InTurn e.before e.input) :
    (trace (Device.step P) d events).map (·.output) = (trace (Device.step P) d' events).map (·.output) ∧
      SameToHost (final (Device.step P) d events) (final (Device.step P) d' events) := by
  have hmirrors := RefinementAux.mirrors_step hhash hready hkey hsmall
  have hturns : ∀ e e' s ev, Embodies P d e s → Embodies P d e' s → InTurn e ev → InTurn e' ev := by
    intro e e' s ev he he' hev
    cases ev with
    | apdu a => exact ⟨(he.sameToHost he').review.trans hev.1, hev.2⟩
    | _ => trivial
  have hembodies : Embodies P d d' (signerState d) :=
    { keys := hsame.keys, capacity := hsame.capacity, valid := hvalid', started := hsame.started, size := hsame.size
      collected := hsame.collected, asks := hsame.review.trans hreview, signature := hsame.signature, expert := hsame.expert
      locked := hsame.pin.trans (Bool.not_not _).symm }
  obtain ⟨houtputs, s, hs, hs'⟩ := (hmirrors.join hmirrors hturns).trace events
    ⟨signerState d, embodies_signerState P hvalid hreview, hembodies⟩ hturn
  exact ⟨houtputs, hs.sameToHost hs'⟩

/-- A device with rubbish in its buffers, its parsed transaction and its flash. -/
theorem old_memory_unseen_demo :
    let d := Demo.device 1000
    let d' := { d with
      io := List.replicate ioApduBufferSize 7
      upload := { d.upload with
        buffering := ⟨List.replicate 1000 9, 0, 0⟩
        parserTxObj := { ParserTx.zero with owner := ⟨500, some 4⟩ } }
      store := { d.store with nCryptoSig := fun _ => ByteArr.ofList 512 [1, 2, 3] }
      actionAddrResponseLen := 200 }
    let events := Demo.upload Demo.tx.message ++ [.approve 0, .apdu (Demo.apdu insGetSig 0 0 [])]
    (trace (Device.step Demo.platform) d events).map (·.output) = (trace (Device.step Demo.platform) d' events).map (·.output) ∧
      SameToHost (final (Device.step Demo.platform) d events) (final (Device.step Demo.platform) d' events) := by
  intro d d' events
  have hlen : d.upload.buffering.data.length = 1000 := List.length_replicate
  have hlen' : d'.upload.buffering.data.length = 1000 := List.length_replicate
  have hsame : SameToHost d d' := ⟨⟨rfl, rfl, rfl⟩, hlen'.trans hlen.symm, rfl, rfl, rfl, rfl, rfl, rfl, rfl⟩
  have hturn : ∀ e ∈ trace (Device.step Demo.platform) d events, InTurn e.before e.input := by decide +kernel
  exact old_memory_unseen Demo.platform (fun _ => rfl) rfl rfl ⟨Nat.zero_le _, Nat.zero_le _⟩ ⟨Nat.zero_le _, Nat.zero_le _⟩
    (by omega) rfl hsame events hturn

end LedgerArweave
