import LedgerArweave.Link
import LedgerArweave.Theorems.ConfirmedAddress

/-!
# The commands that are no `SIGN`

What an exchange does to a device when it is not a chunk: the commands are refused by the checks of `handleApdu` or answered by
their handlers, equation by equation. The settings of a device (`SameSettings`) outlast every exchange.
-/

namespace LedgerArweave

open Lib

section

variable (P : Platform)

/-- The code of every command but the version, on a device that is not initialised or locked. -/
def closedCode (d : Device) : Option StatusWord :=
  if !d.store.deviceInitialized then some apduCodeTxNotInitialized
  else if !d.pinValidated then some (answeredSw P.pinCode)
  else none

end

namespace ExchangeAux

open ConfirmedAddressAux

/-! ## What lasts -/

/-- A device with the settings of another: its keys, its lock, its mode and the size of its transaction buffer. -/
structure SameSettings (d₀ d : Device) : Prop where
  keys : KeysKept d₀.store d.store
  pin : d.pinValidated = d₀.pinValidated
  expert : d.expert = d₀.expert
  capacity : d.upload.buffering.data.length = d₀.upload.buffering.data.length
  valid : d.upload.buffering.Valid

theorem SameSettings.slot {d₀ d : Device} (h : SameSettings d₀ d) : d.store.slot = d₀.store.slot := by
  rw [CryptoStore.slot, CryptoStore.slot, h.keys.slots, h.keys.use]

section

variable (P : Platform) {d₀ d : Device}

/-- What a `SIGN` command does to the buffer. -/
theorem signEffect_buffer {a : Apdu} {u : Upload} {r : Option Review} {o : Output} (hvalid : d.upload.buffering.Valid)
    (h : SignEffect P d a u r o) :
    u.buffering.Valid ∧ u.buffering.data.length = d.upload.buffering.data.length := by
  obtain ⟨hv, hlen, -⟩ := txAppend_valid P hvalid a.data
  have parsed : ∀ {u' : Upload}, u'.buffering = (d.upload.append P a.data).buffering →
      u'.buffering.Valid ∧ u'.buffering.data.length = d.upload.buffering.data.length := by
    intro u' hb
    rw [hb]
    exact ⟨hv, hlen⟩
  cases h with
  | badP2 | notStarted | badP1 => exact ⟨hvalid, rfl⟩
  | init => exact ⟨started_valid, rfl⟩
  | add | full => exact ⟨hv, hlen⟩
  | parseError _ _ _ _ hparse => exact parsed (txParse_frame P _ _ (Or.inr ⟨_, hparse⟩)).1
  | review _ _ _ _ hparse => exact parsed (txParse_frame P _ _ (Or.inl hparse)).1

/-- No event changes the size of the buffer. -/
theorem step_buffer (hvalid : d.upload.buffering.Valid) (ev : Event) :
    (d.step P ev).1.upload.buffering.Valid ∧
      (d.step P ev).1.upload.buffering.data.length = d.upload.buffering.data.length := by
  by_cases hsign : ∃ a, ev = .apdu a ∧ Reaches d a insSign
  · obtain ⟨a, rfl, hr⟩ := hsign
    obtain ⟨io, u, r, o, heff, hstep⟩ := step_of_reaches_sign P hr
    rw [hstep]
    exact signEffect_buffer P hvalid heff
  · rw [step_upload_of_not_sign P fun a hev hr => hsign ⟨a, hev, hr⟩]
    exact ⟨hvalid, rfl⟩

/-- An APDU changes no setting. -/
theorem SameSettings.apdu (h : SameSettings d₀ d) (a : Apdu) : SameSettings d₀ (d.step P (.apdu a)).1 := by
  obtain ⟨hready, hslots, huse⟩ : KeysKept d.store (d.step P (.apdu a)).1.store := step_keys P nofun
  have hbuffer := step_buffer P h.valid (.apdu a)
  have hsame : (d.step P (.apdu a)).1.pinValidated = d.pinValidated ∧ (d.step P (.apdu a)).1.expert = d.expert := by
    change (receive P a d).1.pinValidated = d.pinValidated ∧ (receive P a d).1.expert = d.expert
    have he := receive_effect P d a
    generalize (receive P a d).1 = d' at he ⊢
    generalize (receive P a d).2 = o at he
    cases he <;> exact ⟨rfl, rfl⟩
  exact ⟨⟨hready.trans h.keys.ready, hslots.trans h.keys.slots, huse.trans h.keys.use⟩, hsame.1.trans h.pin,
    hsame.2.trans h.expert, hbuffer.2.trans h.capacity, hbuffer.1⟩

/-- An approval changes no setting. -/
theorem SameSettings.approve (h : SameSettings d₀ d) (salt : Nat) : SameSettings d₀ (d.step P (.approve salt)).1 := by
  change SameSettings d₀ (LedgerArweave.approve P salt d).1
  have he := approve_effect P d salt
  generalize (LedgerArweave.approve P salt d).1 = d' at he ⊢
  generalize (LedgerArweave.approve P salt d).2 = o at he
  cases he with
  | signed => exact ⟨⟨h.keys.ready, h.keys.slots, h.keys.use⟩, h.pin, h.expert, h.capacity, h.valid⟩
  | _ => exact ⟨h.keys, h.pin, h.expert, h.capacity, h.valid⟩

/-- An exchange changes no setting. -/
theorem SameSettings.exchange (h : SameSettings d₀ d) (salt : Nat) (a : Apdu) : SameSettings d₀ (exchange P salt d a).1 := by
  have happdu := h.apdu P a
  unfold LedgerArweave.exchange
  generalize d.step P (.apdu a) = r at happdu ⊢
  obtain ⟨d', o⟩ := r
  cases o with
  | some bytes => exact happdu
  | none => exact happdu.approve P salt

/-! ## The exchange of a query -/

variable {a : Apdu}

/-- An APDU that is answered at once. -/
theorem exchange_of_answered {d' : Device} {bytes : List UInt8} (salt : Nat) (h : d.step P (.apdu a) = (d', some bytes)) :
    exchange P salt d a = (d', some bytes) := by
  rw [LedgerArweave.exchange, h]

/-- An APDU that opens a review is answered by its approval. -/
theorem exchange_of_review {d' : Device} (salt : Nat) (h : d.step P (.apdu a) = (d', none)) :
    exchange P salt d a = approve P salt d' := by
  rw [LedgerArweave.exchange, h]
  rfl

/-- A request is long enough for the app. -/
theorem min_le_length {request : Request} (hlen : request.data.length ≤ 255) :
    apduMinLength ≤ (request.apdu hlen).1.length := by
  simp only [Request.apdu, Request.bytes, List.length_append, List.length_cons, List.length_nil, apduMinLength]
  omega

/-- A request that the transport settles with an answer: the first handler has it when the request lists its status word, the
second one has the status word otherwise. -/
theorem run_settled {τ α : Type} {T : Transport τ} {w : Wire τ} {request : Request} {body : List UInt8} {sw : StatusWord}
    (hsw : sw < 0x10000) (h : (T w.transport request).2 = outcomeOf request (answer body sw)) (f : Response → Promise τ α)
    (g : Rejection → Promise τ α) :
    (thenElse (send T request) f g).run w =
      (if sw ∈ request.statusList then f (answer body sw) else g (.statusCode (.number sw))).run
        ⟨(T w.transport request).1, w.sent ++ [request]⟩ := by
  have hsend := run_send T request w
  rw [h, outcomeOf, returnCodeOf_answer body hsw] at hsend
  by_cases hin : sw ∈ request.statusList
  · rw [if_pos hin] at hsend ⊢
    exact run_thenElse_of_ok hsend _ _
  · rw [if_neg hin] at hsend ⊢
    exact run_thenElse_of_error hsend _ _

/-- The version is answered by every device. -/
theorem receive_version (hlen : apduMinLength ≤ a.1.length) (hcla : a.byte offsetCla = cla)
    (hins : a.byte offsetIns = insGetVersion) :
    ∃ io, receive P a d = ({ d with io := io }, some (P.version.1 ++ swBytes apduCodeOk)) := by
  have he := receive_effect P d a
  have hreceive : receive P a d = ((receive P a d).1, (receive P a d).2) := rfl
  rw [hreceive]
  generalize (receive P a d).1 = d' at he ⊢
  generalize (receive P a d).2 = o at he ⊢
  cases he with
  | refused _ hv => exact absurd hv (by rw [not_or, not_or]; exact ⟨not_not.2 hins, Nat.not_lt.2 hlen, not_not.2 hcla⟩)
  | version => exact ⟨_, rfl⟩
  | addressRefused h | address h | addressReview h | pkRefused h | pk h | sigRefused h | sig h | sign h =>
    exact absurd (hins.symm.trans h.ins) (by decide)

theorem exchange_version (salt : Nat) (hlen : apduMinLength ≤ a.1.length) (hcla : a.byte offsetCla = cla)
    (hins : a.byte offsetIns = insGetVersion) :
    ∃ io, exchange P salt d a = ({ d with io := io }, some (P.version.1 ++ swBytes apduCodeOk)) := by
  obtain ⟨io, hstep⟩ := receive_version P hlen hcla hins
  exact ⟨io, exchange_of_answered P salt hstep⟩

/-- An APDU that is too short, of which at least the class is there. -/
theorem receive_short (ha : a.1 ≠ []) (hlen : a.1.length < apduMinLength) :
    ∃ io, receive P a d = ({ d with io := io },
      some (swBytes (if a.byte offsetCla ≠ cla then apduCodeClaNotSupported else apduCodeWrongLength))) := by
  have hcla : (received d a).dev.io.getD offsetCla 0 = a.byte offsetCla := getD_patch (List.length_pos_iff.2 ha)
  have hrun : (dispatch P a.1.length).run (received d a) =
      .error (if a.byte offsetCla ≠ cla then apduCodeClaNotSupported else apduCodeWrongLength) (received d a) := by
    unfold dispatch
    rw [run_bind_of_ok (run_get _), run_ite, hcla]
    by_cases hc : a.byte offsetCla ≠ cla
    · rw [if_pos hc, if_pos hc]
      rfl
    · rw [if_neg hc, if_neg hc, run_ite, if_pos hlen]
      rfl
  have hreceive : receive P a d = outcome (finish ((dispatch P a.1.length).run (received d a))) := rfl
  rw [hreceive, hrun, finish, outcome_catchOther_zero rfl rfl]
  refine ⟨_, Prod.ext rfl ?_⟩
  split
  · exact congrArg (fun sw => some (swBytes sw)) (by decide)
  · exact congrArg (fun sw => some (swBytes sw)) (by decide)

theorem closedCode_ne_ok {sw : StatusWord} (h : closedCode P d = some sw) : sw ≠ apduCodeOk ∧ sw < 0x10000 := by
  unfold closedCode at h
  split at h
  · cases h
    decide
  · split at h
    · cases h
      exact answeredSw_ne_ok P.pinCode_ne_ok P.pinCode_lt
    · cases h

/-- A device that is not closed is initialised and unlocked. -/
theorem ready_of_open (h : closedCode P d = none) : d.store.deviceInitialized = true ∧ d.pinValidated = true := by
  unfold closedCode at h
  split at h
  · cases h
  · rename_i hready
    split at h
    · cases h
    · rename_i hpin
      simpa using And.intro hready hpin

/-- The checks of `handleApdu` on a command that is long enough, in front of its handlers: what they throw. -/
def checksThrow (d : Device) (a : Apdu) : Option StatusWord :=
  if a.byte offsetCla ≠ cla then some apduCodeClaNotSupported
  else if !d.store.deviceInitialized ∧ a.byte offsetIns ≠ insGetVersion then some apduCodeTxNotInitialized
  else if a.byte offsetIns = insGetVersion then none
  else if a.byte offsetIns ∉ [insGetAddr, insSign, insGetSig, insGetPk] then some apduCodeInsNotSupported
  else if d.pinValidated = false then some P.pinCode
  else none

/-- A command that a check throws at is answered with the status word. -/
theorem receive_of_throw {e : StatusWord} (hlen : apduMinLength ≤ a.1.length) (h : checksThrow P d a = some e) :
    ∃ io, receive P a d = ({ d with io := io }, some (swBytes (answeredSw e))) := by
  have hbyte : ∀ i, i < apduMinLength → (received d a).dev.io.getD i 0 = a.byte i := fun i hi =>
    getD_patch (Nat.lt_of_lt_of_le hi hlen)
  have hrun : (dispatch P a.1.length).run (received d a) = .error e (received d a) := by
    unfold checksThrow at h
    rw [run_dispatch P hlen, hbyte offsetCla (by decide), hbyte offsetIns (by decide),
      show (received d a).dev.store = d.store from rfl, show (received d a).dev.pinValidated = d.pinValidated from rfl]
    split at h
    · rename_i hcla
      cases h
      exact if_pos hcla
    rename_i hcla
    rw [if_neg hcla]
    split at h
    · rename_i hready
      cases h
      exact if_pos hready
    rename_i hready
    rw [if_neg hready]
    split at h
    · cases h
    rename_i hver
    rw [if_neg hver]
    split at h
    · rename_i hins
      cases h
      exact if_pos hins
    rename_i hins
    rw [if_neg hins]
    split at h
    · rename_i hpin
      cases h
      exact if_pos hpin
    · cases h
  have hreceive : receive P a d = outcome (finish ((dispatch P a.1.length).run (received d a))) := rfl
  rw [hreceive, hrun, finish, outcome_catchOther_zero rfl rfl]
  exact ⟨_, rfl⟩

/-- A command that no check throws at reaches its handler. -/
theorem reaches_of_checks (hlen : apduMinLength ≤ a.1.length) (hver : a.byte offsetIns ≠ insGetVersion)
    (h : checksThrow P d a = none) : Reaches d a (a.byte offsetIns) := by
  unfold checksThrow at h
  split at h
  · cases h
  rename_i hcla
  split at h
  · cases h
  rename_i hready
  split at h
  · cases h
  split at h
  · cases h
  rename_i hpin
  exact ⟨hlen, not_not.1 hcla, rfl, by simpa [hver] using hready, by simpa using hpin⟩

/-- A closed device refuses every command it knows but the version. -/
theorem exchange_closed {sw : StatusWord} (salt : Nat) (hclosed : closedCode P d = some sw) (hlen : apduMinLength ≤ a.1.length)
    (hcla : a.byte offsetCla = cla) (hins : a.byte offsetIns ∈ [insGetAddr, insSign, insGetSig, insGetPk]) :
    ∃ io, exchange P salt d a = ({ d with io := io }, some (swBytes sw)) := by
  have hver : a.byte offsetIns ≠ insGetVersion := by
    intro h
    rw [h] at hins
    revert hins
    decide
  have hthrow : ∃ e, answeredSw e = sw ∧ checksThrow P d a = some e := by
    unfold closedCode at hclosed
    rw [checksThrow, if_neg (not_not.2 hcla), if_neg hver, if_neg (not_not.2 hins)]
    cases hready : d.store.deviceInitialized with
    | false =>
      rw [hready] at hclosed
      cases hclosed
      exact ⟨apduCodeTxNotInitialized, by decide, if_pos ⟨rfl, hver⟩⟩
    | true =>
      rw [hready] at hclosed
      rw [if_neg fun h => by cases h.1]
      cases hpin : d.pinValidated with
      | true =>
        rw [hpin] at hclosed
        cases hclosed
      | false =>
        rw [hpin] at hclosed
        cases hclosed
        exact ⟨P.pinCode, rfl, if_pos rfl⟩
  obtain ⟨e, rfl, hthrow⟩ := hthrow
  obtain ⟨io, hstep⟩ := receive_of_throw P hlen hthrow
  exact ⟨io, exchange_of_answered P salt hstep⟩

/-- `GET_ADDR` by the flash and two bytes of its header. -/
theorem receive_getAddr (hr : Reaches d a insGetAddr) :
    receive P a d = outcome (finish (
      if a.byte offsetDataLen ≠ 0 then .error apduCodeCommandNotAllowed (received d a)
      else match cryptoFillAddress P d.store (ioApduBufferSize - 2) with
        | .error _ => .error apduCodeExecutionError
            ⟨{ d with io := List.replicate ioApduBufferSize 0, actionAddrResponseLen := 0 }, 0, false⟩
        | .ok addrStr =>
          let dev := { d with
            io := patch (List.replicate ioApduBufferSize 0) 0 addrStr
            actionAddrResponseLen := addrStrLen }
          if a.p1 ≠ 0 then .ok () ⟨{ dev with review := some .address }, 0, true⟩
          else .error apduCodeOk ⟨dev, addrStrLen, false⟩)) := by
  have hlc : (received d a).dev.io.getD offsetDataLen 0 = a.byte offsetDataLen :=
    getD_patch (Nat.lt_of_lt_of_le (by decide) hr.length)
  have hp1 : (received d a).dev.io.getD offsetP1 0 = a.p1 := getD_patch (Nat.lt_of_lt_of_le (by decide) hr.length)
  have hrun : (handlerOf P a.1.length insGetAddr).run (received d a) = _ := run_handleGetAddress P (received d a)
  rw [hlc, hp1, show (received d a).dev.store = d.store from rfl] at hrun
  rw [receive_of_reaches P hr (by decide), hrun]
  rfl

/-- The address is answered, after its review when one is asked for. -/
theorem exchange_address (salt : Nat) (hr : Reaches d a insGetAddr) (hdata : a.byte offsetDataLen = 0)
    (hkey : d.store.slot.initialized = true) :
    (exchange P salt d a).2 = some (addressOf P d.store.slot.rsaPub ++ swBytes apduCodeOk) ∧
      (exchange P salt d a).1.store = d.store := by
  have hlen := length_addressOf P d.store.slot.rsaPub
  have hfill : cryptoFillAddress P d.store (ioApduBufferSize - 2) = .ok (addressOf P d.store.slot.rsaPub) := by
    rw [cryptoFillAddress_eq P d.store (by decide), if_pos hkey]
  have hstep : d.step P (.apdu a) = receive P a d := rfl
  rw [receive_getAddr P hr, if_neg (not_not.2 hdata), hfill] at hstep
  by_cases hconfirm : a.p1 ≠ 0
  · -- the review shows the address, and the approval replies what the buffer holds
    simp only [if_pos hconfirm, finish, outcome] at hstep
    obtain ⟨d', hd', hstore, hreview, hbuffer⟩ : ∃ d', d.step P (.apdu a) = (d', none) ∧ d'.store = d.store ∧
        d'.review = some .address ∧ InBuffer P d' := ⟨_, hstep, rfl, rfl, ⟨hr.ready, hkey, rfl, rfl⟩⟩
    rw [exchange_of_review P salt hd', ← hstore]
    refine ⟨(showsAddress_of_inBuffer P hreview hbuffer).reply salt, ?_⟩
    rw [approve, hreview]
    rfl
  · simp only [if_neg hconfirm, finish] at hstep
    rw [outcome_catchOther (by rw [← hlen]; exact le_length_patch _ _) rfl] at hstep
    rw [exchange_of_answered P salt hstep, ← hlen]
    exact ⟨congrArg (fun l => some (l ++ swBytes apduCodeOk)) (take_patch_zero _ _), rfl⟩

/-- The two halves of a key or of a signature. -/
theorem halves_append (b : ByteArr 512) : slice b.1 0 256 ++ slice b.1 256 256 = b.1 := by
  have hsplit := slice_add b.1 0 256 256
  rw [Nat.zero_add] at hsplit
  rw [← hsplit]
  exact List.take_of_length_le (Nat.le_of_eq b.2)

/-- `GET_PK` by the flash and two bytes of its header, on a device that holds a key. -/
theorem receive_getPk (hr : Reaches d a insGetPk) (hkey : d.store.slot.initialized = true) :
    ∃ io, receive P a d = ({ d with io := io }, some (
      if a.byte offsetDataLen ≠ 0 then swBytes apduCodeCommandNotAllowed
      else if 1 < a.p2.toNat then swBytes apduCodeConditionsNotSatisfied
      else slice d.store.slot.rsaPub.n.1 (a.p2.toNat * rsaModulusHalve) rsaModulusHalve ++ swBytes apduCodeOk)) := by
  have hlc : (received d a).dev.io.getD offsetDataLen 0 = a.byte offsetDataLen :=
    getD_patch (Nat.lt_of_lt_of_le (by decide) hr.length)
  have hp2 : (received d a).dev.io.getD offsetP2 0 = a.p2 := getD_patch (Nat.lt_of_lt_of_le (by decide) hr.length)
  have hpart := cryptoGetpubkeyPart_eq d.store (show 256 ≤ partLen by decide) a.p2.toNat
  rw [if_pos hkey] at hpart
  have hrun : (handlerOf P a.1.length insGetPk).run (received d a) = handleGetPubKeyPart.run (received d a) := rfl
  rw [receive_of_reaches P hr (by decide), hrun, handleGetPubKeyPart, run_handlePart, hlc, hp2,
    show (received d a).dev.store = d.store from rfl, run_bind_of_ok (run_get d.store), hpart]
  by_cases hdata : a.byte offsetDataLen ≠ 0
  · rw [if_pos hdata, if_pos hdata, finish, EffectAux.part_refused (by decide) _ rfl rfl]
    exact ⟨_, rfl⟩
  rw [if_neg hdata, if_neg hdata]
  by_cases hindex : 1 < a.p2.toNat
  · simp only [if_pos hindex, run_throw, finish]
    rw [EffectAux.part_refused (by decide) _ rfl rfl]
    exact ⟨_, rfl⟩
  · simp only [if_neg hindex, run_pure, finish]
    rw [EffectAux.part_answered (length_half (Nat.not_lt.1 hindex) _) rfl rfl rfl]
    exact ⟨_, rfl⟩

/-- A half of the modulus is answered. -/
theorem exchange_publicKey (salt : Nat) (hr : Reaches d a insGetPk) (hdata : a.byte offsetDataLen = 0)
    (hkey : d.store.slot.initialized = true) (hindex : a.p2.toNat ≤ 1) :
    (exchange P salt d a).2 =
        some (slice d.store.slot.rsaPub.n.1 (a.p2.toNat * rsaModulusHalve) rsaModulusHalve ++ swBytes apduCodeOk) ∧
      (exchange P salt d a).1.store = d.store := by
  obtain ⟨io, hstep⟩ := receive_getPk P hr hkey
  rw [if_neg (not_not.2 hdata), if_neg (Nat.not_lt.2 hindex)] at hstep
  rw [exchange_of_answered P salt hstep]
  exact ⟨rfl, rfl⟩

/-- A half of a signature is refused when none waits. -/
theorem exchange_noSignature (salt : Nat) (hr : Reaches d a insGetSig) (hdata : a.byte offsetDataLen = 0)
    (hset : d.store.signatureSet ≠ 1) :
    ∃ io, exchange P salt d a = ({ d with io := io }, some (swBytes apduCodeConditionsNotSatisfied)) := by
  obtain ⟨io, hstep⟩ := step_of_reaches_getSig P hr
  rw [if_neg fun h => hset h.2.1, if_pos hdata] at hstep
  exact ⟨io, exchange_of_answered P salt hstep⟩

end

end ExchangeAux

end LedgerArweave
