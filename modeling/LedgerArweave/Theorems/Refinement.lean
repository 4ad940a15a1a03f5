import LedgerArweave.Signer
import LedgerArweave.Theorems.Interference
import LedgerArweave.Theorems.Refusals
import LedgerArweave.Theorems.Wallet

/-!
# The app is a signer

Whatever a host sends and the user does, in whatever order: a device that holds a key answers what the signer of its key answers,
byte for byte, as long as the host waits for the decision of the user before it goes on. The relation that every step keeps says
what the state of a signer is on a device.
-/

namespace LedgerArweave

open Lib

/-! ## Commands in bytes -/

/-- The chunk that a `SIGN` carries. -/
def Apdu.chunk (a : Apdu) : Command :=
  if a.p2 ≠ 0 then .badChunk false
  else if a.p1 = p1Init then .start
  else if a.p1 = p1Add then .more a.data
  else if a.p1 = p1Last then .last a.data
  else .badChunk true

/-- The command in the bytes of an APDU. -/
def Apdu.command (a : Apdu) : Command :=
  if a.byte offsetCla ≠ cla then .malformed apduCodeClaNotSupported
  else if a.1.length < apduMinLength then .malformed apduCodeWrongLength
  else if a.byte offsetIns = insGetVersion then .version
  else if a.byte offsetIns = insSign then a.chunk
  else if a.byte offsetIns ∉ [insGetAddr, insGetSig, insGetPk] then .malformed apduCodeInsNotSupported
  else if a.byte offsetDataLen ≠ 0 then .unwantedData
  else if a.byte offsetIns = insGetAddr then .address (a.p1 ≠ 0)
  else if a.byte offsetIns = insGetSig then .signaturePart a.p2.toNat
  else .publicKeyPart a.p2.toNat

/-- What an event is to a signer. -/
def Event.toInput : Event → Input
  | .apdu a => .command a.command
  | .approve salt => .approve salt
  | .reject => .reject
  | .setExpert on => .setExpert on
  | .setPin validated => .setLocked !validated
  | .storeInit .. => .other

/-- The bytes of a reply. -/
def Reply.bytes : Reply ParserError → List UInt8
  | .done data => data ++ swBytes apduCodeOk
  | .refused sw => swBytes sw
  | .invalid e => ascii (parserGetErrorDescription e) ++ swBytes apduCodeDataInvalid

/-- One step of a signer on an event, and the bytes of its reply. -/
def Signer.stepBytes (S : Signer ParserError TxFields) (s : SignerState TxFields) (ev : Event) : SignerState TxFields × Output :=
  ((S.step s ev.toInput).1, (S.step s ev.toInput).2.map Reply.bytes)

/-- The host waits for the decision of the user, and an APDU has a class. -/
def InTurn (d : Device) : Event → Prop
  | .apdu a => d.review = none ∧ a.1 ≠ []
  | _ => True

instance (d : Device) (ev : Event) : Decidable (InTurn d ev) :=
  match ev with
  | .apdu _ => inferInstanceAs (Decidable (_ ∧ _))
  | .approve _ | .reject | .setExpert _ | .setPin _ | .storeInit .. => isTrue trivial

/-! ## The signer of a device -/

section

variable (P : Platform) (H : List UInt8 → ByteArr 48)

/-- What the app makes of the bytes of a transaction. -/
def examineTx (store : CryptoStore) (expert : Bool) (content : List UInt8) : Except ParserError TxFields :=
  match decodeTx content with
  | .error e => .error e
  | .ok f =>
    match f.reviewError P store expert with
    | some e => .error e
    | none => .ok f

/-- The signer of the key of a device. -/
def signerOf (d : Device) : Signer ParserError TxFields where
  version := P.version.1
  address := addressOf P d.store.slot.rsaPub
  modulus := d.store.slot.rsaPub.n
  lockedCode := answeredSw P.pinCode
  capacity := d.upload.buffering.data.length
  taken := P.appended
  examine := examineTx P d.store
  digest f := (deepHash H f.tree).1
  sign salt digest := P.rsaSign d.store.slot.rsaPriv salt (P.sha256 digest)

/-- The review that asks a question. -/
def Question.review {τ : Type} : Question τ → Review
  | .address => .address
  | .transaction _ => .txn

/-- The state of a signer on a device without a review. -/
def signerState (d : Device) : SignerState TxFields where
  started := d.upload.txInitialized
  size := d.upload.buffering.size
  collected := d.upload.buffering.content
  question := none
  signature := pendingSignature d.store
  expert := d.expert
  locked := !d.pinValidated

/-- What a device asks. -/
def Asks (d : Device) : Option (Question TxFields) → Prop
  | none => d.review = none
  | some .address => d.review = some .address ∧ ConfirmedAddressAux.InBuffer P d
  | some (.transaction f) => d.review = some .txn ∧ f.Acceptable ∧
      d.upload.parserTxObj.Holds d.upload.buffering.data d.upload.buffering.pos f

/-- A device with the keys and the buffer of `d₀` is in a state of their signer. -/
structure Embodies (d₀ d : Device) (s : SignerState TxFields) : Prop where
  keys : KeysKept d₀.store d.store
  capacity : d.upload.buffering.data.length = d₀.upload.buffering.data.length
  valid : d.upload.buffering.Valid
  started : d.upload.txInitialized = s.started
  size : d.upload.buffering.size = s.size
  collected : d.upload.buffering.content = s.collected
  asks : Asks P d s.question
  signature : pendingSignature d.store = s.signature
  expert : d.expert = s.expert
  locked : d.pinValidated = !s.locked

variable {P} {d₀ d : Device} {s : SignerState TxFields}

/-- The slot in use is the one it was at the start. -/
theorem Embodies.slot (h : Embodies P d₀ d s) : d.store.slot = d₀.store.slot := by
  rw [CryptoStore.slot, CryptoStore.slot, h.keys.slots, h.keys.use]

/-- The APDU buffer, and the length of the address in it, matter to the review of an address only. -/
theorem Embodies.io (h : Embodies P d₀ d s) (hq : s.question = none) (io : List UInt8) (n : Nat) :
    Embodies P d₀ { d with io := io, actionAddrResponseLen := n } s := by
  have hasks := h.asks
  rw [hq] at hasks
  exact { h with asks := by rw [hq]; exact hasks }

/-- What a device asks does not depend on its mode and its lock. -/
theorem Embodies.setting (h : Embodies P d₀ d s) (expert validated locked : Bool) (hl : validated = !locked) :
    Embodies P d₀ { d with expert := expert, pinValidated := validated } { s with expert := expert, locked := locked } := by
  have hasks : Asks P { d with expert := expert, pinValidated := validated } s.question := by
    have hasks := h.asks
    cases hquestion : s.question with
    | none =>
      rw [hquestion] at hasks
      exact hasks
    | some q =>
      rw [hquestion] at hasks
      cases q with
      | address =>
        obtain ⟨hreview, hbuffer⟩ := hasks
        exact ⟨hreview, hbuffer.ready, hbuffer.key, hbuffer.io, hbuffer.length⟩
      | transaction f => exact hasks
  exact { h with asks := hasks, expert := rfl, locked := hl }

end

namespace RefinementAux

open ExchangeAux ConfirmedAddressAux InterferenceAux RefusalsAux

variable (P : Platform) {H : List UInt8 → ByteArr 48}

/-- A step of the device and one of the signer answer the same and go on together. -/
def Matches (d₀ : Device) (r : Device × Output) (r' : SignerState TxFields × Option (Reply ParserError)) : Prop :=
  r.2 = r'.2.map Reply.bytes ∧ Embodies P d₀ r.1 r'.1

section

variable {P} {d₀ d : Device} {s : SignerState TxFields} {a : Apdu}

/-- A signer that asks nothing is a device without a review. -/
theorem review_none (h : Embodies P d₀ d s) (hq : s.question = none) : d.review = none := by
  have hasks := h.asks
  rw [hq] at hasks
  exact hasks

/-- The review on a device is what the signer asks. -/
theorem review_eq (h : Embodies P d₀ d s) : d.review = s.question.map Question.review := by
  have hasks := h.asks
  cases hq : s.question with
  | none => exact review_none h hq
  | some q =>
    rw [hq] at hasks
    cases q with
    | address => exact hasks.1
    | transaction f => exact hasks.1

/-- An answer that leaves the device as it was. -/
theorem matches_answered (h : Embodies P d₀ d s) (hq : s.question = none) {io bytes : List UInt8} {n : Nat}
    {reply : Reply ParserError} (hbytes : bytes = reply.bytes) :
    Matches P d₀ ({ d with io := io, actionAddrResponseLen := n }, some bytes) (s, some reply) :=
  ⟨congrArg some hbytes, h.io hq io n⟩

/-- An unlocked signer serves every command. -/
theorem command_of_open {S : Signer ParserError TxFields} (hl : s.locked = false) (c : Command) :
    S.command s c = S.serve s c :=
  if_neg fun h => by rw [hl] at h; cases h.1

/-- Some commands are served by a locked one too. -/
theorem command_of_always {S : Signer ParserError TxFields} {c : Command} (hc : c.always = true) : S.command s c = S.serve s c :=
  if_neg fun h => by rw [hc] at h; cases h.2

/-! ## The checks -/

/-- The command of an APDU that is long enough and does not ask for the version, by its instruction. -/
theorem command_of_ins (hcla : a.byte offsetCla = cla) (hlen : apduMinLength ≤ a.1.length)
    (hver : a.byte offsetIns ≠ insGetVersion) :
    a.command =
      if a.byte offsetIns = insSign then a.chunk
      else if a.byte offsetIns ∉ [insGetAddr, insGetSig, insGetPk] then .malformed apduCodeInsNotSupported
      else if a.byte offsetDataLen ≠ 0 then .unwantedData
      else if a.byte offsetIns = insGetAddr then .address (a.p1 ≠ 0)
      else if a.byte offsetIns = insGetSig then .signaturePart a.p2.toNat
      else .publicKeyPart a.p2.toNat := by
  rw [Apdu.command, if_neg (not_not.2 hcla), if_neg (Nat.not_lt.2 hlen), if_neg hver]

/-- The commands that have a handler are not for a locked signer. -/
theorem always_command (hcla : a.byte offsetCla = cla) (hlen : apduMinLength ≤ a.1.length)
    (hver : a.byte offsetIns ≠ insGetVersion) (hins : a.byte offsetIns ∈ [insGetAddr, insSign, insGetSig, insGetPk]) :
    a.command.always = false := by
  rw [command_of_ins hcla hlen hver]
  by_cases hsign : a.byte offsetIns = insSign
  · rw [if_pos hsign, Apdu.chunk]
    split_ifs <;> rfl
  · have hother : a.byte offsetIns ∈ [insGetAddr, insGetSig, insGetPk] := by
      simp only [List.mem_cons] at hins ⊢
      tauto
    rw [if_neg hsign, if_neg (not_not.2 hother)]
    split_ifs <;> rfl

/-- A command that a check refuses. -/
theorem command_of_throw (h : Embodies P d₀ d s) (hready : d₀.store.deviceInitialized = true)
    (hlen : apduMinLength ≤ a.1.length) {e : StatusWord} (hthrow : checksThrow P d a = some e) :
    (signerOf P H d₀).command s a.command = (s, some (.refused (answeredSw e))) := by
  unfold checksThrow at hthrow
  split at hthrow
  · rename_i hcla
    cases hthrow
    rw [Apdu.command, if_pos hcla, command_of_always rfl]
    rfl
  rename_i hcla
  have hcla := not_not.1 hcla
  rw [if_neg fun hr => by rw [h.keys.ready, hready] at hr; cases hr.1] at hthrow
  split at hthrow
  · cases hthrow
  rename_i hver
  split at hthrow
  · rename_i hins
    cases hthrow
    have hsign : a.byte offsetIns ≠ insSign := by
      intro hsign
      rw [hsign] at hins
      exact hins (by decide)
    have hother : a.byte offsetIns ∉ [insGetAddr, insGetSig, insGetPk] := by
      simp only [List.mem_cons] at hins ⊢
      tauto
    rw [command_of_ins hcla hlen hver, if_neg hsign, if_pos hother, command_of_always rfl]
    rfl
  rename_i hins
  split at hthrow
  · rename_i hpin
    cases hthrow
    have hlocked : s.locked = true := by
      rw [h.locked] at hpin
      simpa using hpin
    exact if_pos ⟨hlocked, always_command hcla hlen hver (not_not.1 hins)⟩
  · cases hthrow

/-! ## The handlers -/

/-- `GET_ADDR`. -/
theorem matches_getAddr (h : Embodies P d₀ d s) (hq : s.question = none) (hkey : d₀.store.slot.initialized = true)
    (hl : s.locked = false) (hr : Reaches d a insGetAddr) :
    Matches P d₀ (receive P a d) ((signerOf P H d₀).command s a.command) := by
  have hver : a.byte offsetIns ≠ insGetVersion := by rw [hr.ins]; decide
  have hcommand : a.command = if a.byte offsetDataLen ≠ 0 then .unwantedData else .address (a.p1 ≠ 0) := by
    rw [command_of_ins hr.cla hr.length hver, hr.ins]
    rfl
  have hkey' : d.store.slot.initialized = true := by rw [h.slot]; exact hkey
  have hfill : cryptoFillAddress P d.store (ioApduBufferSize - 2) = .ok (addressOf P d₀.store.slot.rsaPub) := by
    rw [cryptoFillAddress_eq P d.store (by decide), if_pos hkey', h.slot]
  rw [receive_getAddr P hr, hcommand, command_of_open hl]
  by_cases hdata : a.byte offsetDataLen ≠ 0
  · rw [if_pos hdata, if_pos hdata, finish, outcome_catchOther_zero rfl rfl]
    exact matches_answered h hq rfl
  rw [if_neg hdata, if_neg hdata, hfill]
  by_cases hconfirm : a.p1 ≠ 0
  · have hserve : (signerOf P H d₀).serve s (.address (a.p1 ≠ 0)) = ({ s with question := some .address }, none) :=
      if_pos (decide_eq_true hconfirm)
    simp only [if_pos hconfirm, finish, outcome]
    rw [hserve]
    have hbuffer : InBuffer P { d with
        io := patch (List.replicate ioApduBufferSize 0) 0 (addressOf P d₀.store.slot.rsaPub)
        review := some .address
        actionAddrResponseLen := addrStrLen } := ⟨hr.ready, hkey', by rw [h.slot], rfl⟩
    exact ⟨rfl, { h with asks := ⟨rfl, hbuffer⟩ }⟩
  · have hserve : (signerOf P H d₀).serve s (.address (a.p1 ≠ 0)) = (s, some (.done (addressOf P d₀.store.slot.rsaPub))) :=
      if_neg fun hc => hconfirm (of_decide_eq_true hc)
    have hlen := length_addressOf P d₀.store.slot.rsaPub
    simp only [if_neg hconfirm, finish]
    rw [hserve, outcome_catchOther (by rw [← hlen]; exact le_length_patch _ _) rfl]
    refine matches_answered h hq ?_
    rw [← hlen]
    exact congrArg (· ++ swBytes apduCodeOk) (take_patch_zero _ _)

/-- `GET_PK`. -/
theorem matches_getPk (h : Embodies P d₀ d s) (hq : s.question = none) (hkey : d₀.store.slot.initialized = true)
    (hl : s.locked = false) (hr : Reaches d a insGetPk) :
    Matches P d₀ (receive P a d) ((signerOf P H d₀).command s a.command) := by
  have hver : a.byte offsetIns ≠ insGetVersion := by rw [hr.ins]; decide
  have hcommand : a.command = if a.byte offsetDataLen ≠ 0 then .unwantedData else .publicKeyPart a.p2.toNat := by
    rw [command_of_ins hr.cla hr.length hver, hr.ins]
    rfl
  obtain ⟨io, hstep⟩ := receive_getPk P hr (by rw [h.slot]; exact hkey)
  rw [hstep, hcommand, command_of_open hl, h.slot]
  by_cases hdata : a.byte offsetDataLen ≠ 0
  · rw [if_pos hdata, if_pos hdata]
    exact matches_answered h hq rfl
  rw [if_neg hdata, if_neg hdata]
  by_cases hindex : 1 < a.p2.toNat
  · have hserve : (signerOf P H d₀).serve s (.publicKeyPart a.p2.toNat) = (s, some (.refused 0x6985)) :=
      if_neg (Nat.not_le.2 hindex)
    rw [hserve, if_pos hindex]
    exact matches_answered h hq rfl
  · have hserve : (signerOf P H d₀).serve s (.publicKeyPart a.p2.toNat) =
        (s, some (.done (slice d₀.store.slot.rsaPub.n.1 (a.p2.toNat * 256) 256))) := if_pos (Nat.not_lt.1 hindex)
    rw [hserve, if_neg hindex]
    exact matches_answered h hq rfl

/-- `GET_SIG`. -/
theorem matches_getSig (h : Embodies P d₀ d s) (hq : s.question = none) (hl : s.locked = false) (hr : Reaches d a insGetSig) :
    Matches P d₀ (receive P a d) ((signerOf P H d₀).command s a.command) := by
  have hver : a.byte offsetIns ≠ insGetVersion := by rw [hr.ins]; decide
  have hcommand : a.command = if a.byte offsetDataLen ≠ 0 then .unwantedData else .signaturePart a.p2.toNat := by
    rw [command_of_ins hr.cla hr.length hver, hr.ins]
    rfl
  have hsig := h.signature
  obtain ⟨io, hstep⟩ := step_of_reaches_getSig P hr
  have hstep : receive P a d = _ := hstep
  rw [hstep, hcommand, command_of_open hl]
  by_cases hdata : a.byte offsetDataLen ≠ 0
  · rw [if_pos hdata, if_neg fun hc => hdata hc.1, if_neg hdata]
    exact matches_answered h hq rfl
  have hdata := not_not.1 hdata
  rw [if_neg (not_not.2 hdata), Signer.serve, ← hsig, pendingSignature]
  by_cases hset : d.store.signatureSet = 1
  · rw [if_pos hset]
    by_cases hindex : a.p2.toNat ≤ 1
    · rw [if_pos ⟨hdata, hset, hindex⟩]
      simp only [if_pos hindex]
      have hkeys : KeysKept d₀.store (if a.p2.toNat = 1 then clearSignature d.store else d.store) := by
        split
        · exact ⟨h.keys.ready, h.keys.slots, h.keys.use⟩
        · exact h.keys
      have hpending : pendingSignature (if a.p2.toNat = 1 then clearSignature d.store else d.store) =
          if a.p2.toNat = 1 then none else some (d.store.nCryptoSig d.store.slotInUse) := by
        by_cases h1 : a.p2.toNat = 1
        · rw [if_pos h1, if_pos h1]
          rfl
        · rw [if_neg h1, if_neg h1, pendingSignature, if_pos hset]
      have hasks : Asks P { d with
          io := io, store := if a.p2.toNat = 1 then clearSignature d.store else d.store } s.question := by
        rw [hq]
        have hnone := review_none h hq
        exact hnone
      exact ⟨rfl, { h with keys := hkeys, asks := hasks, signature := hpending }⟩
    · rw [if_neg fun hc => hindex hc.2.2, if_pos hdata]
      simp only [if_neg hindex]
      exact matches_answered h hq rfl
  · rw [if_neg hset, if_neg fun hc => hset hc.2.1, if_pos hdata]
    exact matches_answered h hq rfl

/-! ## The chunks -/

/-- A step that changes the upload and no more. -/
theorem embodies_upload (h : Embodies P d₀ d s) (hq : s.question = none) {io : List UInt8} {u : Upload} {started : Bool}
    {size : Nat} {collected : List UInt8} (hvalid : u.buffering.Valid)
    (hlen : u.buffering.data.length = d.upload.buffering.data.length) (hstarted : u.txInitialized = started)
    (hsize : u.buffering.size = size) (hcollected : u.buffering.content = collected) :
    Embodies P d₀ { d with io := io, upload := u, review := d.review }
      { s with started := started, size := size, collected := collected } := by
  have hasks : Asks P { d with io := io, upload := u, review := d.review } s.question := by
    rw [hq]
    have hnone := review_none h hq
    exact hnone
  exact { h with
    capacity := hlen.trans h.capacity, valid := hvalid, started := hstarted, size := hsize, collected := hcollected, asks := hasks }

/-- What a chunk adds to the buffer. -/
theorem content_append (hvalid : d.upload.buffering.Valid) (c : List UInt8) :
    (d.upload.append P c).buffering.content =
      d.upload.buffering.content ++ c.take (P.appended d.upload.buffering.size d.upload.buffering.pos c) := by
  have hpatch := take_patch (c.take (P.appended d.upload.buffering.size d.upload.buffering.pos c)) hvalid.pos_le
  rw [(appended_fits P hvalid c).1] at hpatch
  exact hpatch

/-- A chunk is collected as it is appended. -/
theorem collect_eq (h : Embodies P d₀ d s) (c : List UInt8)
    (next : SignerState TxFields → SignerState TxFields × Option (Reply ParserError)) :
    (signerOf P H d₀).collect s c next =
      if d.upload.Fits P c then next { s with collected := (d.upload.append P c).buffering.content }
      else ({ s with started := false, collected := (d.upload.append P c).buffering.content }, some (.refused 0x6983)) := by
  have hpos : s.collected.length = d.upload.buffering.pos := by
    rw [← h.collected, Buffering.content, List.length_take_of_le h.valid.pos_le]
  have htaken : (signerOf P H d₀).taken s.size s.collected.length c =
      P.appended d.upload.buffering.size d.upload.buffering.pos c := by
    rw [hpos, ← h.size]
    rfl
  rw [content_append h.valid, Signer.collect, htaken, h.collected]
  rfl

/-- What the app makes of a message is what the signer makes of what it collected. -/
theorem examine_of_txParse (h : Embodies P d₀ d s) (hsmall : d₀.upload.buffering.data.length < 65536) {c : List UInt8}
    {r : EStateM.Result ParserError Upload Unit}
    (hparse : (txParse P d.store d.expert).run (d.upload.append P c) = r) :
    match examineTx P d₀.store s.expert (d.upload.append P c).buffering.content with
    | .error e => ∃ u, r = .error e u
    | .ok f => ∃ u : Upload, r = .ok () u ∧ f.Acceptable ∧
        u.parserTxObj.Holds (d.upload.append P c).buffering.data (d.upload.append P c).buffering.pos f := by
  obtain ⟨hvalid, hlen, -⟩ := txAppend_valid P h.valid c
  have hsmall : (d.upload.append P c).buffering.data.length < 65536 := by
    rw [show (d.upload.append P c).buffering.data.length = d₀.upload.buffering.data.length from hlen.trans h.capacity]
    exact hsmall
  have hdecodes := run_txParse_decodes P d.store d.expert hvalid hsmall
  have howner : ∀ f : TxFields, f.reviewError P d.store d.expert = f.reviewError P d₀.store s.expert := by
    intro f
    have hin : OwnerInUse d.store f.owner ↔ OwnerInUse d₀.store f.owner := by
      rw [OwnerInUse, OwnerInUse, cryptoStoreIsInitialized, cryptoStoreIsInitialized, h.slot]
    unfold TxFields.reviewError
    rw [h.expert]
    simp only [hin]
  rw [hparse] at hdecodes
  unfold examineTx
  cases hdecode : decodeTx (d.upload.append P c).buffering.content with
  | error e =>
    rw [hdecode] at hdecodes
    exact hdecodes
  | ok f =>
    rw [hdecode] at hdecodes
    obtain ⟨u, hholds, hf, hrun⟩ := hdecodes
    rw [howner] at hrun
    cases hreview : f.reviewError P d₀.store s.expert with
    | some e =>
      rw [hreview] at hrun
      simp only [hreview]
      exact ⟨u, hrun⟩
    | none =>
      rw [hreview] at hrun
      simp only [hreview]
      exact ⟨u, hrun, hf, hholds⟩

/-- What the parser or the validator refuses, the signer refuses for the same reason. -/
theorem examine_of_error (h : Embodies P d₀ d s) (hsmall : d₀.upload.buffering.data.length < 65536) {c : List UInt8}
    {e : ParserError} {u : Upload} (hparse : (txParse P d.store d.expert).run (d.upload.append P c) = .error e u) :
    examineTx P d₀.store s.expert (d.upload.append P c).buffering.content = .error e := by
  have hexamine := examine_of_txParse h hsmall hparse
  cases hresult : examineTx P d₀.store s.expert (d.upload.append P c).buffering.content with
  | error e' =>
    rw [hresult] at hexamine
    obtain ⟨u', heq⟩ := hexamine
    cases heq
    rfl
  | ok f =>
    rw [hresult] at hexamine
    obtain ⟨u', heq, -⟩ := hexamine
    cases heq

/-- What they accept is the transaction that the signer finds. -/
theorem examine_of_ok (h : Embodies P d₀ d s) (hsmall : d₀.upload.buffering.data.length < 65536) {c : List UInt8}
    {u : Upload} (hparse : (txParse P d.store d.expert).run (d.upload.append P c) = .ok () u) :
    ∃ f, examineTx P d₀.store s.expert (d.upload.append P c).buffering.content = .ok f ∧ f.Acceptable ∧
      u.parserTxObj.Holds (d.upload.append P c).buffering.data (d.upload.append P c).buffering.pos f := by
  have hexamine := examine_of_txParse h hsmall hparse
  cases hresult : examineTx P d₀.store s.expert (d.upload.append P c).buffering.content with
  | error e' =>
    rw [hresult] at hexamine
    obtain ⟨u', heq⟩ := hexamine
    cases heq
  | ok f =>
    rw [hresult] at hexamine
    obtain ⟨u', heq, hf, hholds⟩ := hexamine
    cases heq
    exact ⟨f, rfl, hf, hholds⟩

/-- What was collected is parsed: the buffer and the flag stay as they were. -/
theorem embodies_parsed (h : Embodies P d₀ d s) {c : List UInt8} {u : Upload}
    (hbuffering : u.buffering = (d.upload.append P c).buffering) (hflag : u.txInitialized = d.upload.txInitialized)
    {io : List UInt8} {review : Option Review} {question : Option (Question TxFields)}
    (hasks : Asks P { d with io := io, upload := u, review := review } question) :
    Embodies P d₀ { d with io := io, upload := u, review := review }
      { s with collected := (d.upload.append P c).buffering.content, question := question } := by
  obtain ⟨hvalid, hlen, hsize⟩ := txAppend_valid P h.valid c
  have hu : u.buffering = (txAppend P d.upload.buffering c).2 := hbuffering
  rw [← hu] at hvalid hlen hsize
  rw [← hbuffering]
  exact { h with
    capacity := hlen.trans h.capacity, valid := hvalid, started := hflag.trans h.started, size := hsize.trans h.size
    collected := rfl, asks := hasks }

/-- A chunk in the middle of an upload. -/
theorem chunk_add (h2 : a.p2 = 0) (h1 : a.p1 = p1Add) : a.chunk = .more a.data := by
  rw [Apdu.chunk, if_neg (not_not.2 h2), if_neg (by rw [h1]; decide), if_pos h1]

/-- The last chunk. -/
theorem chunk_last (h2 : a.p2 = 0) (h1 : a.p1 = p1Last) : a.chunk = .last a.data := by
  rw [Apdu.chunk, if_neg (not_not.2 h2), if_neg (by rw [h1]; decide), if_neg (by rw [h1]; decide), if_pos h1]

/-- The last chunk of an upload that was started. -/
theorem serve_last (h : Embodies P d₀ d s) (hi : d.upload.txInitialized = true) (c : List UInt8) :
    (signerOf P H d₀).serve s (.last c) = (signerOf P H d₀).collect s c (signerOf P H d₀).review :=
  if_pos (h.started.symm.trans hi)

/-- `SIGN`. -/
theorem matches_sign (h : Embodies P d₀ d s) (hq : s.question = none) (hsmall : d₀.upload.buffering.data.length < 65536)
    (hl : s.locked = false) (hr : Reaches d a insSign) :
    Matches P d₀ (receive P a d) ((signerOf P H d₀).command s a.command) := by
  have hver : a.byte offsetIns ≠ insGetVersion := by rw [hr.ins]; decide
  have hcommand : a.command = a.chunk := by
    rw [command_of_ins hr.cla hr.length hver, hr.ins]
    rfl
  obtain ⟨hvalid, hlen, hsize⟩ := txAppend_valid P h.valid a.data
  obtain ⟨io, u, r, o, heff, hstep⟩ := step_of_reaches_sign P hr
  have hstep : receive P a d = _ := hstep
  rw [hstep, hcommand, command_of_open hl]
  cases heff with
  | badP2 h2 =>
    have hstarted : d.upload.txInitialized = (s.started && !false) := h.started.trans (Bool.and_true _).symm
    rw [Apdu.chunk, if_pos h2]
    exact ⟨rfl, embodies_upload h hq h.valid rfl hstarted h.size h.collected⟩
  | init h2 h1 =>
    rw [Apdu.chunk, if_neg (not_not.2 h2), if_pos h1]
    exact ⟨rfl, embodies_upload h hq started_valid rfl rfl h.capacity (List.take_zero ..)⟩
  | add h2 h1 hfits =>
    rw [chunk_add h2 h1, Signer.serve, collect_eq h, if_pos hfits]
    exact ⟨rfl, embodies_upload h hq hvalid hlen h.started (hsize.trans h.size) rfl⟩
  | full h2 h1 hfits =>
    have hfull : Matches P d₀ ({ d with
        io := io, upload := { d.upload.append P a.data with txInitialized := false }, review := d.review },
          some (swBytes apduCodeOutputBufferTooSmall))
        ({ s with started := false, collected := (d.upload.append P a.data).buffering.content }, some (.refused 0x6983)) :=
      ⟨rfl, embodies_upload h hq hvalid hlen rfl (hsize.trans h.size) rfl⟩
    rcases h1 with h1 | ⟨h1, hi⟩
    · rw [chunk_add h2 h1, Signer.serve, collect_eq h, if_neg hfits]
      exact hfull
    · rw [chunk_last h2 h1, serve_last h hi, collect_eq h, if_neg hfits]
      exact hfull
  | notStarted h2 h1 hi =>
    have hstarted : ¬s.started = true := by
      rw [← h.started, hi]
      decide
    rw [chunk_last h2 h1, Signer.serve, if_neg hstarted]
    exact matches_answered h hq rfl
  | @parseError h2 h1 hi hfits e u hparse =>
    obtain ⟨hbuffering, hflag⟩ := txParse_frame P _ _ (Or.inr ⟨_, hparse⟩)
    have hexamine : (signerOf P H d₀).examine s.expert (d.upload.append P a.data).buffering.content = .error e :=
      examine_of_error h hsmall hparse
    have hasks : Asks P { d with io := io, upload := u, review := d.review } s.question := by
      rw [hq]
      have hnone := review_none h hq
      exact hnone
    rw [chunk_last h2 h1, serve_last h hi, collect_eq h, if_pos hfits, Signer.review, hexamine]
    exact ⟨rfl, embodies_parsed h hbuffering hflag hasks⟩
  | @review h2 h1 hi hfits u hparse =>
    obtain ⟨hbuffering, hflag⟩ := txParse_frame P _ _ (Or.inl hparse)
    obtain ⟨f, hexamine, hf, hholds⟩ := examine_of_ok h hsmall hparse
    have hexamine : (signerOf P H d₀).examine s.expert (d.upload.append P a.data).buffering.content = .ok f := hexamine
    have hasks : Asks P { d with io := io, upload := u, review := some .txn } (some (.transaction f)) := by
      refine ⟨rfl, hf, ?_⟩
      rw [hbuffering]
      exact hholds
    rw [chunk_last h2 h1, serve_last h hi, collect_eq h, if_pos hfits, Signer.review, hexamine]
    exact ⟨rfl, embodies_parsed h hbuffering hflag hasks⟩
  | badP1 h2 h1 =>
    have hstarted : false = (s.started && !true) := (Bool.and_false _).symm
    rw [Apdu.chunk, if_neg (not_not.2 h2), if_neg h1.1, if_neg h1.2.1, if_neg h1.2.2]
    exact ⟨rfl, embodies_upload h hq h.valid rfl hstarted h.size h.collected⟩

/-! ## The steps -/

/-- An APDU. -/
theorem matches_apdu (h : Embodies P d₀ d s) (hq : s.question = none) (hready : d₀.store.deviceInitialized = true)
    (hkey : d₀.store.slot.initialized = true) (hsmall : d₀.upload.buffering.data.length < 65536) (ha : a.1 ≠ []) :
    Matches P d₀ (receive P a d) ((signerOf P H d₀).command s a.command) := by
  by_cases hlen : a.1.length < apduMinLength
  · obtain ⟨io, hstep⟩ := receive_short P (d := d) ha hlen
    rw [hstep, Apdu.command]
    by_cases hcla : a.byte offsetCla ≠ cla
    · rw [if_pos hcla, if_pos hcla, command_of_always rfl]
      exact matches_answered h hq rfl
    · rw [if_neg hcla, if_neg hcla, if_pos hlen, command_of_always rfl]
      exact matches_answered h hq rfl
  have hlen := Nat.not_lt.1 hlen
  cases hthrow : checksThrow P d a with
  | some e =>
    obtain ⟨io, hstep⟩ := receive_of_throw P hlen hthrow
    rw [hstep, command_of_throw h hready hlen hthrow]
    exact matches_answered h hq rfl
  | none =>
    by_cases hver : a.byte offsetIns = insGetVersion
    · have hcla : a.byte offsetCla = cla := by
        by_contra hcla
        rw [checksThrow, if_pos hcla] at hthrow
        cases hthrow
      obtain ⟨io, hstep⟩ := receive_version P (d := d) hlen hcla hver
      rw [hstep, Apdu.command, if_neg (not_not.2 hcla), if_neg (Nat.not_lt.2 hlen), if_pos hver, command_of_always rfl]
      exact matches_answered h hq rfl
    have hr := reaches_of_checks P hlen hver hthrow
    have hl : s.locked = false := by
      have hpin := h.locked
      rw [hr.pin] at hpin
      simpa using hpin.symm
    have hins : a.byte offsetIns ∈ [insGetAddr, insSign, insGetSig, insGetPk] := by
      by_contra hins
      unfold checksThrow at hthrow
      have hclosed : ¬(!d.store.deviceInitialized ∧ a.byte offsetIns ≠ insGetVersion) := by
        rw [hr.ready]
        exact fun hc => by cases hc.1
      rw [if_neg (not_not.2 hr.cla), if_neg hclosed, if_neg hver, if_pos hins] at hthrow
      cases hthrow
    simp only [List.mem_cons, List.not_mem_nil, or_false] at hins
    rcases hins with hi | hi | hi | hi
    · exact matches_getAddr h hq hkey hl (hi ▸ hr)
    · exact matches_sign h hq hsmall hl (hi ▸ hr)
    · exact matches_getSig h hq hl (hi ▸ hr)
    · exact matches_getPk h hq hkey hl (hi ▸ hr)

/-- An approval. -/
theorem matches_approve (hhash : ∀ x, P.sha384 x = .ok (H x)) (h : Embodies P d₀ d s)
    (hkey : d₀.store.slot.initialized = true) (hsmall : d₀.upload.buffering.data.length < 65536) (salt : Nat) :
    Matches P d₀ (approve P salt d) ((signerOf P H d₀).approve s salt) := by
  have hasks := h.asks
  have hask : ∀ {io : List UInt8} {store : CryptoStore}, Asks P { d with io := io, review := none, store := store } none := rfl
  cases hquestion : s.question with
  | none =>
    rw [hquestion] at hasks
    have hnone : d.review = none := hasks
    rw [approve, hnone, Signer.approve, hquestion]
    exact ⟨rfl, h⟩
  | some q =>
    cases q with
    | address =>
      rw [hquestion] at hasks
      obtain ⟨hreview, hbuffer⟩ := hasks
      have hreply := (showsAddress_of_inBuffer P hreview hbuffer).reply salt
      rw [Signer.approve, hquestion]
      refine ⟨?_, ?_⟩
      · rw [hreply, h.slot]
        rfl
      · rw [approve, hreview]
        exact { h with asks := hask }
    | transaction f =>
      rw [hquestion] at hasks
      obtain ⟨hreview, hf, hholds⟩ := hasks
      have hpos : d.upload.buffering.pos < 65536 := by
        have := h.valid.pos_le
        have := h.capacity
        omega
      -- the digest that the app computes over the buffer is the one of the transaction the user saw
      have hdigest : parserGetDigest P.sha384 d.upload.buffering.data d.upload.parserTxObj sha384DigestLen =
          .ok ((signerOf P H d₀).digest f) := by
        have hsha : P.sha384 = totalSha384 H := funext hhash
        rw [hsha, parserGetDigest_of_holds H hpos hholds hf.tags (Nat.le_refl _), Nat.sub_self, List.replicate_zero,
          List.append_nil]
        rfl
      have hsign : (signerOf P H d₀).sign salt ((signerOf P H d₀).digest f) =
          P.rsaSign d.store.slot.rsaPriv salt (P.sha256 ((signerOf P H d₀).digest f)) := by
        rw [h.slot]
        rfl
      have he := approve_effect P d salt
      generalize approve P salt d = r at he ⊢
      obtain ⟨d', o⟩ := r
      simp only [Signer.approve, hquestion]
      cases he with
      | idle hr | address hr =>
        rw [hreview] at hr
        cases hr
      | @signed io digest sig hr hs =>
        have heq := hs.hashed.symm.trans hdigest
        cases heq
        have hsigned := hsign.trans hs.signed
        rw [hsigned]
        have hpending : pendingSignature (cryptoStoreSignature sig d.store) = some sig :=
          congrArg some (Function.update_self ..)
        have hkeys : KeysKept d₀.store (cryptoStoreSignature sig d.store) := ⟨h.keys.ready, h.keys.slots, h.keys.use⟩
        exact ⟨rfl, { h with keys := hkeys, asks := hask, signature := hpending }⟩
      | @failed io hr hs =>
        have hrefused : (signerOf P H d₀).sign salt ((signerOf P H d₀).digest f) = none := by
          rw [hsign, Option.eq_none_iff_forall_ne_some]
          intro sig hsig
          exact hs _ sig ⟨by rw [h.slot]; exact hkey, hdigest, hsig⟩
        rw [hrefused]
        exact ⟨rfl, { h with asks := hask }⟩

/-- A rejection. -/
theorem matches_reject (h : Embodies P d₀ d s) : Matches P d₀ (reject d) (Signer.reject s) := by
  cases hquestion : s.question with
  | none =>
    have hnone := review_none h hquestion
    rw [reject, hnone, Signer.reject, hquestion]
    exact ⟨rfl, h⟩
  | some q =>
    have hreview : d.review = some q.review := by
      rw [review_eq h, hquestion]
      rfl
    rw [reject, hreview, Signer.reject, hquestion]
    exact ⟨rfl, { h with asks := rfl }⟩

/-- The app and the signer go side by side. -/
theorem mirrors_step (hhash : ∀ x, P.sha384 x = .ok (H x)) (hready : d₀.store.deviceInitialized = true)
    (hkey : d₀.store.slot.initialized = true) (hsmall : d₀.upload.buffering.data.length < 65536) :
    Mirrors (Embodies P d₀) InTurn (Device.step P) (signerOf P H d₀).stepBytes := by
  intro d s ev h hturn
  cases ev with
  | apdu a =>
    have hnone := review_eq h
    rw [hturn.1, eq_comm, Option.map_eq_none_iff] at hnone
    exact matches_apdu h hnone hready hkey hsmall hturn.2
  | approve salt => exact matches_approve hhash h hkey hsmall salt
  | reject => exact matches_reject h
  | setExpert on =>
    have hnext := h.setting on d.pinValidated s.locked h.locked
    exact ⟨rfl, hnext⟩
  | setPin validated =>
    have hnext := h.setting d.expert validated (!validated) (Bool.not_not _).symm
    have hsame : { s with expert := d.expert, locked := !validated } = { s with locked := !validated } := by
      rw [h.expert]
    rw [hsame] at hnext
    exact ⟨rfl, hnext⟩
  | storeInit phrase fails =>
    have hstep : d.step P (.storeInit phrase fails) = (d, none) := if_pos (h.keys.ready.trans hready)
    rw [hstep]
    exact ⟨rfl, h⟩

end

end RefinementAux

section

variable (P : Platform) {H : List UInt8 → ByteArr 48} {d : Device}

/-- A device in its state without a review. -/
theorem embodies_signerState (hvalid : d.upload.buffering.Valid) (hreview : d.review = none) :
    Embodies P d d (signerState d) :=
  ⟨⟨rfl, rfl, rfl⟩, rfl, hvalid, rfl, rfl, rfl, hreview, rfl, rfl, (Bool.not_not _).symm⟩

/-- In every run in which the host waits for the decisions of the user and every APDU has a class, a device that is initialised and
holds a key, with no review open at the start and a transaction buffer of less than 65536 bytes, answers every APDU, approval and
rejection with the bytes of the signer of its key, and it ends in the state of the signer. The hash function of the digest always
answers. -/
theorem app_is_signer (hhash : ∀ x, P.sha384 x = .ok (H x)) (hready : d.store.deviceInitialized = true)
    (hkey : d.store.slot.initialized = true) (hvalid : d.upload.buffering.Valid)
    (hsmall : d.upload.buffering.data.length < 65536) (hreview : d.review = none) (events : List Event)
    (hturn : ∀ e ∈ trace (Device.step P) d events, InTurn e.before e.input) :
    (trace (Device.step P) d events).map (·.output) =
        (trace (signerOf P H d).stepBytes (signerState d) events).map (·.output) ∧
      Embodies P d (final (Device.step P) d events) (final (signerOf P H d).stepBytes (signerState d) events) :=
  (RefinementAux.mirrors_step hhash hready hkey hsmall).trace events (embodies_signerState P hvalid hreview) hturn

/-- The demo transaction is uploaded and signed, and the halves of the signature are fetched; the third request for one is
refused. -/
theorem app_is_signer_demo :
    let events := Demo.upload Demo.tx.message ++ [.approve 0, .apdu (Demo.apdu insGetSig 0 0 []),
      .apdu (Demo.apdu insGetSig 0 1 []), .apdu (Demo.apdu insGetSig 0 0 [])]
    let S := signerOf Demo.platform (ByteArr.ofList 48) (Demo.device 1000)
    (trace (Device.step Demo.platform) (Demo.device 1000) events).map (·.output) =
        (trace S.stepBytes (signerState (Demo.device 1000)) events).map (·.output) ∧
      Embodies Demo.platform (Demo.device 1000) (final (Device.step Demo.platform) (Demo.device 1000) events)
        (final S.stepBytes (signerState (Demo.device 1000)) events) := by
  intro events S
  have hturn : ∀ e ∈ trace (Device.step Demo.platform) (Demo.device 1000) events, InTurn e.before e.input := by decide +kernel
  have hlen : (Demo.device 1000).upload.buffering.data.length = 1000 := List.length_replicate
  exact app_is_signer Demo.platform (fun _ => rfl) rfl rfl ⟨Nat.zero_le _, Nat.zero_le _⟩ (by omega) rfl events hturn

end

end LedgerArweave
