import LedgerArweave.Device

/-!
# What a step does

One lemma per handler that runs it, and `receive_effect`, which says all that an APDU can do to the app: every invariant of the
app is derived from it.
-/

namespace LedgerArweave

open Lib

/-! ## Commands that reach their handler -/

/-- The command of an APDU reaches its handler (for every command but `GET_VERSION`, which asks for less). -/
structure Reaches (d : Device) (a : Apdu) (ins : UInt8) : Prop where
  length : apduMinLength ≤ a.1.length
  cla : a.byte offsetCla = LedgerArweave.cla
  ins : a.byte offsetIns = ins
  ready : d.store.deviceInitialized = true
  pin : d.pinValidated = true

/-- An upload that was just started. -/
def Upload.started (u : Upload) : Upload :=
  { u with buffering := txReset (txInitialize u.buffering), txInitialized := true }

section

variable (P : Platform)

/-- An upload with a chunk more in its buffer. -/
def Upload.append (c : List UInt8) (u : Upload) : Upload := { u with buffering := (txAppend P u.buffering c).2 }

/-- The buffer has room for a chunk: all of it is appended. -/
def Upload.Fits (u : Upload) (c : List UInt8) : Prop := P.appended u.buffering.size u.buffering.pos c = c.length

instance (u : Upload) (c : List UInt8) : Decidable (u.Fits P c) := inferInstanceAs (Decidable (_ = _))

/-- What a `SIGN` command that reached its handler does to the upload and to the review, and what it answers. -/
inductive SignEffect (d : Device) (a : Apdu) : Upload → Option Review → Output → Prop where
  | badP2 (hp2 : a.p2 ≠ 0) : SignEffect d a d.upload d.review (some (swBytes apduCodeInvalidP1P2))
  | init (hp2 : a.p2 = 0) (hp1 : a.p1 = p1Init) : SignEffect d a d.upload.started d.review (some (swBytes apduCodeOk))
  | add (hp2 : a.p2 = 0) (hp1 : a.p1 = p1Add) (hfits : d.upload.Fits P a.data) :
      SignEffect d a (d.upload.append P a.data) d.review (some (swBytes apduCodeOk))
  | full (hp2 : a.p2 = 0) (hp1 : a.p1 = p1Add ∨ (a.p1 = p1Last ∧ d.upload.txInitialized = true))
      (hfits : ¬d.upload.Fits P a.data) :
      SignEffect d a { d.upload.append P a.data with txInitialized := false } d.review
        (some (swBytes apduCodeOutputBufferTooSmall))
  | notStarted (hp2 : a.p2 = 0) (hp1 : a.p1 = p1Last) (hi : d.upload.txInitialized = false) :
      SignEffect d a d.upload d.review (some (swBytes apduCodeTxNotInitialized))
  | parseError (hp2 : a.p2 = 0) (hp1 : a.p1 = p1Last) (hi : d.upload.txInitialized = true) (hfits : d.upload.Fits P a.data)
      {e : ParserError} {u : Upload} (hparse : (txParse P d.store d.expert).run (d.upload.append P a.data) = .error e u) :
      SignEffect d a u d.review (some (ascii (parserGetErrorDescription e) ++ swBytes apduCodeDataInvalid))
  | review (hp2 : a.p2 = 0) (hp1 : a.p1 = p1Last) (hi : d.upload.txInitialized = true) (hfits : d.upload.Fits P a.data)
      {u : Upload} (hparse : (txParse P d.store d.expert).run (d.upload.append P a.data) = .ok () u) :
      SignEffect d a u (some .txn) none
  | badP1 (hp2 : a.p2 = 0) (hp1 : a.p1 ≠ p1Init ∧ a.p1 ≠ p1Add ∧ a.p1 ≠ p1Last) :
      SignEffect d a { d.upload with txInitialized := false } d.review (some (swBytes apduCodeInvalidP1P2))

/-- The length of the buffer a part of a key or of a signature is asked into. -/
def partLen : Nat := ioApduBufferSize - 3

/-- What an APDU does to the app and what the app answers; the bytes it leaves in the APDU buffer are `io`. -/
inductive Effect (d : Device) (a : Apdu) : Device → Output → Prop where
  | refused {io : List UInt8} {sw : StatusWord} (hr : ∀ ins ∈ [insGetAddr, insSign, insGetSig, insGetPk], ¬Reaches d a ins)
      (hv : a.byte offsetIns ≠ insGetVersion ∨ a.1.length < apduMinLength ∨ a.byte offsetCla ≠ cla)
      (hsw : answeredSw sw ≠ apduCodeOk ∧ answeredSw sw < 0x10000) :
      Effect d a { d with io := io } (some (swBytes (answeredSw sw)))
  | version {io : List UInt8} (hi : a.byte offsetIns = insGetVersion) :
      Effect d a { d with io := io } (some (P.version.1 ++ swBytes apduCodeOk))
  | addressRefused {io : List UInt8} {n : Nat} {sw : StatusWord} (h : Reaches d a insGetAddr)
      (hsw : sw = apduCodeCommandNotAllowed ∨ sw = apduCodeExecutionError) :
      Effect d a { d with io := io, actionAddrResponseLen := n } (some (swBytes sw))
  | address {io addrStr : List UInt8} (h : Reaches d a insGetAddr) (hlc : a.byte offsetDataLen = 0) (hp1 : a.p1 = 0)
      (ha : cryptoFillAddress P d.store (ioApduBufferSize - 2) = .ok addrStr) :
      Effect d a { d with io := io, actionAddrResponseLen := addrStrLen }
        (some ((patch (List.replicate ioApduBufferSize 0) 0 addrStr).take addrStrLen ++ swBytes apduCodeOk))
  | addressReview {addrStr : List UInt8} (h : Reaches d a insGetAddr) (hlc : a.byte offsetDataLen = 0) (hp1 : a.p1 ≠ 0)
      (ha : cryptoFillAddress P d.store (ioApduBufferSize - 2) = .ok addrStr) :
      Effect d a
        { d with
          io := patch (List.replicate ioApduBufferSize 0) 0 addrStr
          actionAddrResponseLen := addrStrLen
          review := some .address } none
  | pkRefused {io : List UInt8} {sw : StatusWord} (h : Reaches d a insGetPk)
      (hsw : sw = apduCodeCommandNotAllowed ∨ sw = apduCodeConditionsNotSatisfied)
      (hk : a.byte offsetDataLen ≠ 0 ∨ ∃ e, cryptoGetpubkeyPart d.store partLen a.p2.toNat = .error e) :
      Effect d a { d with io := io } (some (swBytes sw))
  | pk {io bytes : List UInt8} (h : Reaches d a insGetPk) (hlc : a.byte offsetDataLen = 0)
      (hk : cryptoGetpubkeyPart d.store partLen a.p2.toNat = .ok bytes) :
      Effect d a { d with io := io } (some (bytes ++ swBytes apduCodeOk))
  | sigRefused {io : List UInt8} {sw : StatusWord} (h : Reaches d a insGetSig)
      (hsw : sw = apduCodeCommandNotAllowed ∨ sw = apduCodeConditionsNotSatisfied)
      (hs : a.byte offsetDataLen ≠ 0 ∨ ∃ e, (cryptoGetsignaturePart partLen a.p2.toNat).run d.store = .error e d.store) :
      Effect d a { d with io := io } (some (swBytes sw))
  | sig {io bytes : List UInt8} {s : CryptoStore} (h : Reaches d a insGetSig) (hlc : a.byte offsetDataLen = 0)
      (hs : (cryptoGetsignaturePart partLen a.p2.toNat).run d.store = .ok bytes s) :
      Effect d a { d with io := io, store := s } (some (bytes ++ swBytes apduCodeOk))
  | sign {io : List UInt8} {u : Upload} {r : Option Review} {o : Output} (h : Reaches d a insSign)
      (hs : SignEffect P d a u r o) : Effect d a { d with io := io, upload := u, review := r } o

end

/-! ## The APDU buffer -/

/-- A byte the overwriting wrote. -/
theorem getD_patch {l bs : List UInt8} {i : Nat} (h : i < bs.length) : (patch l 0 bs).getD i 0 = bs.getD i 0 := by
  have hb : i < (List.take 0 l ++ bs).length := by simpa using h
  rw [List.getD_eq_getElem?_getD, List.getD_eq_getElem?_getD, patch, List.getElem?_append_left hb, List.take_zero,
    List.nil_append]

/-- Behind the header, the APDU buffer holds the data of the APDU just received. -/
theorem payload_patch (l : List UInt8) (a : Apdu) : payload (patch l 0 a.1) a.1.length = a.data := by
  rw [payload, patch, List.take_zero, List.nil_append, Apdu.data, slice]
  by_cases h : offsetData ≤ a.1.length
  · rw [List.drop_append_of_le_length h, List.take_left' (List.length_drop ..)]
  · rw [List.drop_of_length_le (by omega : a.1.length ≤ offsetData), Nat.sub_eq_zero_of_le (by omega), List.take_zero]

/-- A write at the start makes room for itself. -/
theorem le_length_patch (l bs : List UInt8) : bs.length ≤ (patch l 0 bs).length := by
  simp [patch]

/-- What the start of the region holds after it was overwritten. -/
theorem take_patch_zero (l bs : List UInt8) : (patch l 0 bs).take bs.length = bs := by
  simp [patch]

/-! ## The crypto store -/

/-- Each half of a modulus or of a signature is 256 bytes. -/
theorem length_half {i : Nat} (hi : i ≤ 1) (b : ByteArr 512) :
    (slice b.1 (i * rsaModulusHalve) rsaModulusHalve).length = 256 := by
  have hb := b.2
  exact length_slice (by simp only [rsaModulusHalve]; omega)

/-- The store after the second half of the signature was handed out. -/
def clearSignature (s : CryptoStore) : CryptoStore :=
  { s with nCryptoSig := Function.update s.nCryptoSig s.slotInUse (ByteArr.zero 512), signatureSet := 0 }

/-- A part of the signature is handed out as it is stored, and the second part clears it. -/
theorem run_cryptoGetsignaturePart (bufferLen index : Nat) (s : CryptoStore) (hb : 256 ≤ bufferLen) :
    (cryptoGetsignaturePart bufferLen index).run s =
      if s.signatureSet = 1 then
        if index ≤ 1 then
          .ok (slice (s.nCryptoSig s.slotInUse).1 (index * rsaModulusHalve) rsaModulusHalve)
            (if index = 1 then clearSignature s else s)
        else .error .outOfBounds s
      else .error .invalidCryptoSettings s := by
  by_cases hs : s.signatureSet = 1
  · have h1 : ¬(!isSigSet s ∨ bufferLen < 256) := by
      simp only [isSigSet, hs, decide_true, Bool.not_true, Bool.false_eq_true, false_or]
      omega
    unfold cryptoGetsignaturePart
    rw [run_bind_of_ok (run_get s), if_neg h1, if_pos hs, cryptoSignaturePart,
      run_bind_of_ok (run_get s), if_neg (by simpa using hs)]
    by_cases hi : index ≤ 1
    · rw [if_neg (by omega), if_pos hi]
      by_cases h1 : index = 1
      · rw [if_pos h1, if_pos h1]
        rfl
      · rw [if_neg h1, if_neg h1]
        rfl
    · rw [if_pos (by omega), if_neg hi]
      rfl
  · have h1 : !isSigSet s ∨ bufferLen < 256 := Or.inl (by simpa [isSigSet] using hs)
    unfold cryptoGetsignaturePart
    rw [run_bind_of_ok (run_get s), if_pos h1, if_neg hs]
    rfl

/-! ## The handlers -/

section

variable (P : Platform)

/-- The version is written to the start of the APDU buffer. -/
theorem run_handleGetversion (f : Frame) :
    (handleGetversion P).run f = .error apduCodeOk { f with dev.io := patch f.dev.io 0 P.version.1, tx := f.tx + 9 } := rfl

/-- The parts of a key or of a signature: refused with data or when the store refuses, handed out otherwise. -/
theorem run_handlePart (part : (bufferLen index : Nat) → EStateM ZxErr CryptoStore (List UInt8)) (f : Frame) :
    (handlePart part).run f =
      if f.dev.io.getD offsetDataLen 0 ≠ 0 then .error apduCodeCommandNotAllowed { f with tx := 0 }
      else match (part partLen (f.dev.io.getD offsetP2 0).toNat).run f.dev.store with
        | .error _ s => .error apduCodeConditionsNotSatisfied
            { f with dev := { f.dev with io := List.replicate ioApduBufferSize 0, store := s }, tx := 0 }
        | .ok bytes s => .error apduCodeOk
            { f with dev := { f.dev with io := patch (List.replicate ioApduBufferSize 0) 0 bytes, store := s }, tx := 256 } := by
  unfold handlePart
  rw [run_bind_of_ok (run_setTx 0 f), run_bind_of_ok (run_get _)]
  by_cases h : f.dev.io.getD offsetDataLen 0 ≠ 0
  · rw [if_pos h, if_pos h]
    rfl
  · rw [if_neg h, if_neg h, run_bind_of_ok (run_zeroIo _)]
    cases hp : (part partLen (f.dev.io.getD offsetP2 0).toNat).run f.dev.store with
    | ok bytes s =>
      rw [run_bind_of_ok (run_attempt_zoom_of_ok (by exact hp))]
      rfl
    | error e s =>
      rw [run_bind_of_ok (run_attempt_zoom_of_error (by exact hp))]
      rfl

/-- The address: refused with data or when the store has no key, otherwise answered or shown first. -/
theorem run_handleGetAddress (f : Frame) :
    (handleGetAddress P).run f =
      if f.dev.io.getD offsetDataLen 0 ≠ 0 then .error apduCodeCommandNotAllowed { f with tx := 0 }
      else match cryptoFillAddress P f.dev.store (ioApduBufferSize - 2) with
        | .error _ => .error apduCodeExecutionError
            { f with dev := { f.dev with io := List.replicate ioApduBufferSize 0, actionAddrResponseLen := 0 }, tx := 0 }
        | .ok addrStr =>
          let dev := { f.dev with
            io := patch (List.replicate ioApduBufferSize 0) 0 addrStr
            actionAddrResponseLen := addrStrLen }
          if f.dev.io.getD offsetP1 0 ≠ 0 then .ok () { dev := { dev with review := some .address }, tx := 0, asynch := true }
          else .error apduCodeOk { f with dev := dev, tx := addrStrLen } := by
  unfold handleGetAddress
  rw [run_bind_of_ok (run_setTx 0 f), run_bind_of_ok (run_get _)]
  by_cases h : f.dev.io.getD offsetDataLen 0 ≠ 0
  · rw [if_pos h, if_pos h]
    rfl
  · rw [if_neg h, if_neg h, run_bind_of_ok (run_zeroIo _), run_bind_of_ok (run_modify _ _)]
    cases ha : cryptoFillAddress P f.dev.store (ioApduBufferSize - 2) with
    | error e => rfl
    | ok addrStr =>
      simp only
      rw [run_bind_of_ok (run_writeIo _ _), run_bind_of_ok (run_modify _ _), run_ite]
      split <;> rfl

/-- `process_chunk`, case by case. -/
theorem run_processChunk {io : List UInt8} {rx : Nat} (hrx : offsetData ≤ rx)
    (hc : (payload io rx).length = rx - offsetData) (u : Upload) :
    (processChunk P io rx).run u =
      if io.getD offsetP2 0 ≠ 0 then .error apduCodeInvalidP1P2 u
      else if io.getD offsetP1 0 = p1Init then .ok false u.started
      else if io.getD offsetP1 0 = p1Add then
        if u.Fits P (payload io rx) then .ok false (u.append P (payload io rx))
        else .error apduCodeOutputBufferTooSmall { u.append P (payload io rx) with txInitialized := false }
      else if io.getD offsetP1 0 = p1Last then
        if u.txInitialized = false then .error apduCodeTxNotInitialized u
        else if u.Fits P (payload io rx) then .ok true (u.append P (payload io rx))
        else .error apduCodeOutputBufferTooSmall { u.append P (payload io rx) with txInitialized := false }
      else .error apduCodeInvalidP1P2 { u with txInitialized := false } := by
  have hfits : ((txAppend P u.buffering (payload io rx)).1 ≠ rx - offsetData) ↔ ¬u.Fits P (payload io rx) := by
    rw [Upload.Fits, ← hc]
    rfl
  unfold processChunk
  simp only [offsetPayloadType]
  rw [if_neg (by omega)]
  by_cases h2 : io.getD offsetP2 0 ≠ 0
  · rw [if_pos h2, if_pos h2]
    rfl
  rw [if_neg h2, if_neg h2]
  by_cases hi : io.getD offsetP1 0 = p1Init
  · rw [if_pos hi, if_pos hi]
    rfl
  rw [if_neg hi, if_neg hi]
  by_cases ha : io.getD offsetP1 0 = p1Add
  · rw [if_pos ha, if_pos ha, run_bind_of_ok (run_get u), run_bind_of_ok (run_modify _ u), run_ite]
    by_cases hf : u.Fits P (payload io rx)
    · rw [if_neg (fun h => hfits.1 h hf), if_pos hf]
      rfl
    · rw [if_pos (hfits.2 hf), if_neg hf]
      rfl
  rw [if_neg ha, if_neg ha]
  by_cases hl : io.getD offsetP1 0 = p1Last
  · rw [if_pos hl, if_pos hl, run_bind_of_ok (run_get u)]
    cases ht : u.txInitialized with
    | false => rfl
    | true =>
      rw [if_neg (show ¬(!true) = true from nofun), if_neg (show ¬true = false from nofun),
        run_bind_of_ok (run_modify _ u), run_ite]
      by_cases hf : u.Fits P (payload io rx)
      · rw [if_neg (fun h => hfits.1 h hf), if_pos hf]
        rfl
      · rw [if_pos (hfits.2 hf), if_neg hf]
        rfl
  · rw [if_neg hl, if_neg hl]
    rfl

/-! ## The answers -/

/-- A thrown status word is answered behind what the handler wrote. -/
theorem outcome_catchOther {e : StatusWord} {f : Frame} (htx : f.tx ≤ f.dev.io.length) (ha : f.asynch = false) :
    outcome (catchOther e f) =
      ({ f.dev with io := patch f.dev.io f.tx (swBytes (answeredSw e)) },
        some (f.dev.io.take f.tx ++ swBytes (answeredSw e))) := by
  have := take_patch (swBytes (answeredSw e)) htx
  rw [outcome, catchOther]
  simp only [ha, Bool.false_eq_true, if_false]
  rw [show f.tx + 2 = f.tx + (swBytes (answeredSw e)).length from rfl, this]

/-- A status word thrown before anything was written is the whole answer. -/
theorem outcome_catchOther_zero {e : StatusWord} {f : Frame} (htx : f.tx = 0) (ha : f.asynch = false) :
    outcome (catchOther e f) =
      ({ f.dev with io := patch f.dev.io 0 (swBytes (answeredSw e)) }, some (swBytes (answeredSw e))) := by
  rw [outcome_catchOther (by omega) ha, htx, List.take_zero, List.nil_append]

/-- An exception that is not the status word of success is not answered with it. -/
theorem answeredSw_ne_ok {e : StatusWord} (h : e ≠ apduCodeOk) (hlt : e < 0x10000) :
    answeredSw e ≠ apduCodeOk ∧ answeredSw e < 0x10000 := by
  unfold answeredSw
  split
  · exact ⟨h, hlt⟩
  · have h1 : e &&& 0x7FF < 2 ^ 15 := Nat.lt_of_le_of_lt Nat.and_le_right (by decide)
    have h2 : 0x6800 ||| (e &&& 0x7FF) < 2 ^ 15 := Nat.or_lt_two_pow (by decide) h1
    exact ⟨Nat.ne_of_lt (Nat.lt_trans h2 (by decide)), Nat.lt_trans h2 (by decide)⟩

/-! ## `SIGN` -/

/-- A chunk that is refused leaves what `process_chunk` left of the upload. -/
theorem run_handleSign_of_error {rx : Nat} {f : Frame} {sw : StatusWord} {u : Upload}
    (h : (processChunk P f.dev.io rx).run f.dev.upload = .error sw u) :
    (handleSign P rx).run f = .error sw (f.setUpload u) := by
  unfold handleSign
  rw [run_bind_of_ok (run_get f), run_bind_of_error (run_zoom_of_error (by exact h))]

/-- A chunk that is not the last one is answered with success. -/
theorem run_handleSign_of_more {rx : Nat} {f : Frame} {u : Upload}
    (h : (processChunk P f.dev.io rx).run f.dev.upload = .ok false u) :
    (handleSign P rx).run f = .error apduCodeOk (f.setUpload u) := by
  unfold handleSign
  rw [run_bind_of_ok (run_get f), run_bind_of_ok (run_zoom_of_ok (by exact h))]
  rfl

/-- After the last chunk the transaction is parsed: an error is answered with its description, otherwise the review opens. -/
theorem run_handleSign_of_last {rx : Nat} {f : Frame} {u : Upload}
    (h : (processChunk P f.dev.io rx).run f.dev.upload = .ok true u) :
    (handleSign P rx).run f = match (txParse P f.dev.store f.dev.expert).run u with
      | .error e u' =>
        let errorMsg := ascii (parserGetErrorDescription e)
        .error apduCodeDataInvalid
          { f with dev := { f.dev with io := patch f.dev.io 0 errorMsg, upload := u' }, tx := f.tx + errorMsg.length }
      | .ok _ u' => .ok () { f with dev := { f.dev with upload := u', review := some .txn }, asynch := true } := by
  unfold handleSign
  rw [run_bind_of_ok (run_get f), run_bind_of_ok (run_zoom_of_ok (by exact h)),
    if_neg (show ¬(!true) = true from nofun)]
  cases hp : (txParse P f.dev.store f.dev.expert).run u with
  | ok a u' =>
    rw [run_bind_of_ok (run_attempt_zoom_of_ok (by exact hp))]
    rfl
  | error e u' =>
    rw [run_bind_of_ok (run_attempt_zoom_of_error (by exact hp))]
    rfl

/-- The app with an APDU received, before it is handled. -/
def received (d : Device) (a : Apdu) : Frame := ⟨{ d with io := patch d.io 0 a.1 }, 0, false⟩

section

variable {d : Device} {a : Apdu}

/-- A status word thrown by `process_chunk` is the whole answer. -/
theorem outcome_handleSign_of_error {sw : StatusWord} {u : Upload}
    (h : (processChunk P (patch d.io 0 a.1) a.1.length).run d.upload = .error sw u) (hsw : answeredSw sw = sw) :
    ∃ io, outcome (finish ((handleSign P a.1.length).run (received d a))) =
      ({ d with io := io, upload := u }, some (swBytes sw)) := by
  have hrun := run_handleSign_of_error P (f := received d a) h
  rw [hrun, finish, outcome_catchOther_zero rfl rfl, hsw]
  exact ⟨_, rfl⟩

/-- A chunk that is not the last is answered with success. -/
theorem outcome_handleSign_of_more {u : Upload}
    (h : (processChunk P (patch d.io 0 a.1) a.1.length).run d.upload = .ok false u) :
    ∃ io, outcome (finish ((handleSign P a.1.length).run (received d a))) =
      ({ d with io := io, upload := u }, some (swBytes apduCodeOk)) := by
  have hrun := run_handleSign_of_more P (f := received d a) h
  rw [hrun, finish, outcome_catchOther_zero rfl rfl]
  exact ⟨_, rfl⟩

/-- The last chunk of a transaction that does not parse is answered with the description of the error. -/
theorem outcome_handleSign_of_parseError {u u' : Upload} {e : ParserError}
    (h : (processChunk P (patch d.io 0 a.1) a.1.length).run d.upload = .ok true u)
    (hparse : (txParse P d.store d.expert).run u = .error e u') :
    ∃ io, outcome (finish ((handleSign P a.1.length).run (received d a))) =
      ({ d with io := io, upload := u' }, some (ascii (parserGetErrorDescription e) ++ swBytes apduCodeDataInvalid)) := by
  have hrun := run_handleSign_of_last P (f := received d a) h
  rw [show (received d a).dev.store = d.store from rfl, show (received d a).dev.expert = d.expert from rfl, hparse] at hrun
  have hle := le_length_patch (received d a).dev.io (ascii (parserGetErrorDescription e))
  rw [hrun, finish, outcome_catchOther (by simpa only [received, Nat.zero_add] using hle) rfl]
  simp only [received, Nat.zero_add, take_patch_zero]
  exact ⟨_, rfl⟩

/-- The last chunk of a transaction that parses opens the review and leaves the answer to it. -/
theorem outcome_handleSign_of_review {u u' : Upload}
    (h : (processChunk P (patch d.io 0 a.1) a.1.length).run d.upload = .ok true u)
    (hparse : (txParse P d.store d.expert).run u = .ok () u') :
    ∃ io, outcome (finish ((handleSign P a.1.length).run (received d a))) =
      ({ d with io := io, upload := u', review := some .txn }, none) := by
  have hrun := run_handleSign_of_last P (f := received d a) h
  rw [show (received d a).dev.store = d.store from rfl, show (received d a).dev.expert = d.expert from rfl, hparse] at hrun
  rw [hrun]
  exact ⟨_, rfl⟩

end

/-- What a `SIGN` command does that reached its handler. -/
theorem handleSign_effect (d : Device) (a : Apdu) (hlen : offsetData ≤ a.1.length) :
    ∃ io u r o, SignEffect P d a u r o ∧ outcome (finish ((handleSign P a.1.length).run (received d a))) =
      ({ d with io := io, upload := u, review := r }, o) := by
  have hpay := payload_patch d.io a
  have hp2 : (patch d.io 0 a.1).getD offsetP2 0 = a.p2 := getD_patch (Nat.lt_of_lt_of_le (by decide) hlen)
  have hp1 : (patch d.io 0 a.1).getD offsetP1 0 = a.p1 := getD_patch (Nat.lt_of_lt_of_le (by decide) hlen)
  have hchunk := run_processChunk P hlen (by rw [hpay, Apdu.data, List.length_drop]) d.upload
  rw [hpay, hp1, hp2] at hchunk
  by_cases h2 : a.p2 ≠ 0
  · rw [if_pos h2] at hchunk
    obtain ⟨io, h⟩ := outcome_handleSign_of_error P hchunk (by decide)
    exact ⟨io, _, _, _, .badP2 h2, h⟩
  rw [if_neg h2] at hchunk
  have h2 : a.p2 = 0 := not_not.1 h2
  by_cases hi : a.p1 = p1Init
  · rw [if_pos hi] at hchunk
    obtain ⟨io, h⟩ := outcome_handleSign_of_more P hchunk
    exact ⟨io, _, _, _, .init h2 hi, h⟩
  rw [if_neg hi] at hchunk
  by_cases ha : a.p1 = p1Add
  · rw [if_pos ha] at hchunk
    by_cases hfits : d.upload.Fits P a.data
    · rw [if_pos hfits] at hchunk
      obtain ⟨io, h⟩ := outcome_handleSign_of_more P hchunk
      exact ⟨io, _, _, _, .add h2 ha hfits, h⟩
    · rw [if_neg hfits] at hchunk
      obtain ⟨io, h⟩ := outcome_handleSign_of_error P hchunk (by decide)
      exact ⟨io, _, _, _, .full h2 (Or.inl ha) hfits, h⟩
  rw [if_neg ha] at hchunk
  by_cases hl : a.p1 = p1Last
  · rw [if_pos hl] at hchunk
    by_cases ht : d.upload.txInitialized = false
    · rw [if_pos ht] at hchunk
      obtain ⟨io, h⟩ := outcome_handleSign_of_error P hchunk (by decide)
      exact ⟨io, _, _, _, .notStarted h2 hl ht, h⟩
    rw [if_neg ht] at hchunk
    have ht : d.upload.txInitialized = true := by simpa using ht
    by_cases hfits : d.upload.Fits P a.data
    · rw [if_pos hfits] at hchunk
      cases hp : (txParse P d.store d.expert).run (d.upload.append P a.data) with
      | ok _ u' =>
        obtain ⟨io, h⟩ := outcome_handleSign_of_review P hchunk hp
        exact ⟨io, u', _, _, .review h2 hl ht hfits hp, h⟩
      | error e u' =>
        obtain ⟨io, h⟩ := outcome_handleSign_of_parseError P hchunk hp
        exact ⟨io, u', _, _, .parseError h2 hl ht hfits hp, h⟩
    · rw [if_neg hfits] at hchunk
      obtain ⟨io, h⟩ := outcome_handleSign_of_error P hchunk (by decide)
      exact ⟨io, _, _, _, .full h2 (Or.inr ⟨hl, ht⟩) hfits, h⟩
  · rw [if_neg hl] at hchunk
    obtain ⟨io, h⟩ := outcome_handleSign_of_error P hchunk (by decide)
    exact ⟨io, _, _, _, .badP1 h2 ⟨hi, ha, hl⟩, h⟩

/-! ## All commands -/

/-- A locked device answers the status word of `CHECK_PIN_VALIDATED`. -/
theorem run_checkPinValidated (f : Frame) :
    (checkPinValidated P).run f = if f.dev.pinValidated then .ok () f else .error P.pinCode f := by
  unfold checkPinValidated
  rw [run_bind_of_ok (run_get f), run_ite]
  rfl

/-- The handler `dispatch` calls on an APDU that is long enough, or the status word it throws before. -/
theorem run_dispatch {rx : Nat} {f : Frame} (hrx : apduMinLength ≤ rx) :
    (dispatch P rx).run f =
      if f.dev.io.getD offsetCla 0 ≠ cla then .error apduCodeClaNotSupported f
      else if !f.dev.store.deviceInitialized ∧ f.dev.io.getD offsetIns 0 ≠ insGetVersion then
        .error apduCodeTxNotInitialized f
      else if f.dev.io.getD offsetIns 0 = insGetVersion then (handleGetversion P).run f
      else if f.dev.io.getD offsetIns 0 ∉ [insGetAddr, insSign, insGetSig, insGetPk] then .error apduCodeInsNotSupported f
      else if f.dev.pinValidated = false then .error P.pinCode f
      else if f.dev.io.getD offsetIns 0 = insGetAddr then (handleGetAddress P).run f
      else if f.dev.io.getD offsetIns 0 = insSign then (handleSign P rx).run f
      else if f.dev.io.getD offsetIns 0 = insGetSig then handleGetSigPart.run f
      else handleGetPubKeyPart.run f := by
  -- a handler behind `CHECK_PIN_VALIDATED`
  have pin : ∀ (h : Handler Unit), (do checkPinValidated P; h).run f =
      if f.dev.pinValidated = false then .error P.pinCode f else h.run f := by
    intro h
    cases hp : f.dev.pinValidated with
    | true => rw [run_bind_of_ok ((run_checkPinValidated P f).trans (by rw [hp]; rfl))]; rfl
    | false => rw [run_bind_of_error ((run_checkPinValidated P f).trans (by rw [hp]; rfl))]; rfl
  unfold dispatch
  rw [run_bind_of_ok (run_get f)]
  simp only [run_ite, pin, if_neg (show ¬rx < apduMinLength by omega), run_throw]
  generalize f.dev.io.getD offsetIns 0 = ins
  by_cases h0 : ins = insGetVersion
  · simp [h0]
  by_cases h1 : ins = insGetAddr
  · simp [h1, insGetAddr, insGetVersion, insSign, insGetSig, insGetPk]
  by_cases h2 : ins = insSign
  · simp [h2, insGetAddr, insGetVersion, insSign, insGetSig, insGetPk]
  by_cases h3 : ins = insGetSig
  · simp [h3, insGetAddr, insGetVersion, insSign, insGetSig, insGetPk]
  by_cases h4 : ins = insGetPk
  · simp [h4, insGetAddr, insGetVersion, insSign, insGetSig, insGetPk]
  · simp [h0, h1, h2, h3, h4]

namespace EffectAux

/-- A status word thrown before a handler ran. -/
theorem refused {d : Device} {a : Apdu} (sw : StatusWord)
    (hr : ∀ ins ∈ [insGetAddr, insSign, insGetSig, insGetPk], ¬Reaches d a ins)
    (hv : a.byte offsetIns ≠ insGetVersion ∨ a.1.length < apduMinLength ∨ a.byte offsetCla ≠ cla)
    (hsw : sw ≠ apduCodeOk ∧ sw < 0x10000) :
    Effect P d a (outcome (catchOther sw (received d a))).1 (outcome (catchOther sw (received d a))).2 := by
  rw [outcome_catchOther_zero rfl rfl]
  exact .refused hr hv (answeredSw_ne_ok hsw.1 hsw.2)

/-- The status word of a refused part is the whole answer. -/
theorem part_refused {sw : StatusWord} (hsw : answeredSw sw = sw) (f : Frame) (htx : f.tx = 0) (ha : f.asynch = false) :
    outcome (catchOther sw f) = ({ f.dev with io := patch f.dev.io 0 (swBytes sw) }, some (swBytes sw)) := by
  rw [outcome_catchOther_zero htx ha, hsw]

/-- A part of 256 bytes is answered in full. -/
theorem part_answered {bytes : List UInt8} (hb : bytes.length = 256) {f : Frame} (htx : f.tx = 256)
    (hio : f.dev.io = patch (List.replicate ioApduBufferSize 0) 0 bytes) (ha : f.asynch = false) :
    outcome (catchOther apduCodeOk f) =
      ({ f.dev with io := patch f.dev.io 256 (swBytes apduCodeOk) }, some (bytes ++ swBytes apduCodeOk)) := by
  have hle : f.tx ≤ f.dev.io.length := by
    rw [htx, hio, ← hb]
    exact le_length_patch _ _
  have htake : f.dev.io.take f.tx = bytes := by
    rw [htx, hio, ← hb, take_patch_zero]
  rw [outcome_catchOther hle ha, htake, htx]
  rfl

/-- What `handleGetSigPart` answers: a half of the signature while one waits, an error otherwise. -/
theorem outcome_handleGetSigPart {d : Device} {a : Apdu} (h : Reaches d a insGetSig) :
    ∃ io, outcome (finish (handleGetSigPart.run (received d a))) =
      if a.byte offsetDataLen = 0 ∧ d.store.signatureSet = 1 ∧ a.p2.toNat ≤ 1 then
        ({ d with io := io, store := if a.p2.toNat = 1 then clearSignature d.store else d.store },
          some (slice (d.store.nCryptoSig d.store.slotInUse).1 (a.p2.toNat * rsaModulusHalve) rsaModulusHalve ++
            swBytes apduCodeOk))
      else ({ d with io := io }, some (swBytes (if a.byte offsetDataLen = 0 then apduCodeConditionsNotSatisfied
        else apduCodeCommandNotAllowed))) := by
  have hlc : (received d a).dev.io.getD offsetDataLen 0 = a.byte offsetDataLen :=
    getD_patch (Nat.lt_of_lt_of_le (by decide) h.length)
  have hp2 : (received d a).dev.io.getD offsetP2 0 = a.p2 := getD_patch (Nat.lt_of_lt_of_le (by decide) h.length)
  unfold handleGetSigPart
  rw [run_handlePart, hlc, hp2, show (received d a).dev.store = d.store from rfl,
    run_cryptoGetsignaturePart partLen a.p2.toNat d.store (by decide)]
  by_cases hd : a.byte offsetDataLen = 0
  · rw [if_neg (not_not.2 hd)]
    simp only [hd, true_and, if_true]
    by_cases hc : d.store.signatureSet = 1 ∧ a.p2.toNat ≤ 1
    · simp only [if_pos hc, if_pos hc.1, if_pos hc.2, finish]
      rw [part_answered (length_half hc.2 _) rfl rfl rfl]
      exact ⟨_, rfl⟩
    · simp only [if_neg hc]
      by_cases hs : d.store.signatureSet = 1
      · simp only [if_pos hs, if_neg (fun hi => hc ⟨hs, hi⟩), finish]
        rw [part_refused (by decide) _ rfl rfl]
        exact ⟨_, rfl⟩
      · simp only [if_neg hs, finish]
        rw [part_refused (by decide) _ rfl rfl]
        exact ⟨_, rfl⟩
  · simp only [if_pos hd, hd, false_and, if_false, finish]
    rw [part_refused (by decide) _ rfl rfl]
    exact ⟨_, rfl⟩

/-- `GET_SIG`: refused, or a part of the signature. -/
theorem getSig_effect {d : Device} {a : Apdu} (h : Reaches d a insGetSig) :
    Effect P d a (outcome (finish (handleGetSigPart.run (received d a)))).1
      (outcome (finish (handleGetSigPart.run (received d a)))).2 := by
  have hrun := run_cryptoGetsignaturePart partLen a.p2.toNat d.store (by decide)
  obtain ⟨io, heq⟩ := outcome_handleGetSigPart h
  rw [heq]
  by_cases hc : a.byte offsetDataLen = 0 ∧ d.store.signatureSet = 1 ∧ a.p2.toNat ≤ 1
  · rw [if_pos hc.2.1, if_pos hc.2.2] at hrun
    rw [if_pos hc]
    exact .sig h hc.1 hrun
  · rw [if_neg hc]
    by_cases hd : a.byte offsetDataLen = 0
    · rw [if_pos hd]
      refine .sigRefused h (Or.inr rfl) (Or.inr ?_)
      split at hrun
      · rename_i hs
        rw [if_neg fun hi => hc ⟨hd, hs, hi⟩] at hrun
        exact ⟨_, hrun⟩
      · exact ⟨_, hrun⟩
    · rw [if_neg hd]
      exact .sigRefused h (Or.inl rfl) (Or.inl hd)

/-- `GET_PK`: refused, or a part of the key. -/
theorem getPk_effect {d : Device} {a : Apdu} (h : Reaches d a insGetPk) :
    Effect P d a (outcome (finish (handleGetPubKeyPart.run (received d a)))).1
      (outcome (finish (handleGetPubKeyPart.run (received d a)))).2 := by
  have hlc : (received d a).dev.io.getD offsetDataLen 0 = a.byte offsetDataLen :=
    getD_patch (Nat.lt_of_lt_of_le (by decide) h.length)
  have hp2 : (received d a).dev.io.getD offsetP2 0 = a.p2 := getD_patch (Nat.lt_of_lt_of_le (by decide) h.length)
  unfold handleGetPubKeyPart
  rw [run_handlePart, hlc, hp2]
  by_cases hd : a.byte offsetDataLen ≠ 0
  · rw [if_pos hd, finish, part_refused (by decide) _ rfl rfl]
    exact .pkRefused h (Or.inl rfl) (Or.inl hd)
  rw [if_neg hd, show (received d a).dev.store = d.store from rfl, run_bind_of_ok (run_get d.store)]
  cases hk : cryptoGetpubkeyPart d.store partLen a.p2.toNat with
  | ok bytes =>
    have hlen : bytes.length = 256 := by
      rw [cryptoGetpubkeyPart_eq d.store (show 256 ≤ partLen by decide)] at hk
      split at hk
      · split at hk
        · cases hk
        · rename_i hi
          cases hk
          exact length_half (Nat.not_lt.1 hi) _
      · cases hk
    simp only [run_pure, finish]
    rw [part_answered hlen rfl rfl rfl]
    exact .pk h (not_not.1 hd) hk
  | error e =>
    simp only [run_throw, finish]
    rw [part_refused (by decide) _ rfl rfl]
    exact .pkRefused h (Or.inr rfl) (Or.inr ⟨e, hk⟩)

/-- `GET_ADDR`: refused, the address, or its review. -/
theorem getAddr_effect {d : Device} {a : Apdu} (h : Reaches d a insGetAddr) :
    Effect P d a (outcome (finish ((handleGetAddress P).run (received d a)))).1
      (outcome (finish ((handleGetAddress P).run (received d a)))).2 := by
  have hlc : (received d a).dev.io.getD offsetDataLen 0 = a.byte offsetDataLen :=
    getD_patch (Nat.lt_of_lt_of_le (by decide) h.length)
  have hp1 : (received d a).dev.io.getD offsetP1 0 = a.p1 := getD_patch (Nat.lt_of_lt_of_le (by decide) h.length)
  rw [run_handleGetAddress, hlc, hp1, show (received d a).dev.store = d.store from rfl]
  by_cases hd : a.byte offsetDataLen ≠ 0
  · rw [if_pos hd, finish, part_refused (by decide) _ rfl rfl]
    exact .addressRefused h (Or.inl rfl)
  rw [if_neg hd]
  cases hk : cryptoFillAddress P d.store (ioApduBufferSize - 2) with
  | error e =>
    simp only [finish]
    rw [part_refused (by decide) _ rfl rfl]
    exact .addressRefused h (Or.inr rfl)
  | ok addrStr =>
    simp only
    by_cases hc : a.p1 ≠ 0
    · rw [if_pos hc]
      exact .addressReview h (not_not.1 hd) hc hk
    · have hle : addrStrLen ≤ (patch (List.replicate ioApduBufferSize 0) 0 addrStr).length := by
        simp only [patch, List.length_append, List.length_take, List.length_drop, List.length_replicate, ioApduBufferSize,
          addrStrLen]
        omega
      rw [if_neg hc, finish, outcome_catchOther hle rfl]
      exact .address h (not_not.1 hd) (not_not.1 hc) hk

/-- `GET_VERSION` is always answered. -/
theorem getVersion_effect {d : Device} {a : Apdu} (h : a.byte offsetIns = insGetVersion) :
    Effect P d a (outcome (finish ((handleGetversion P).run (received d a)))).1
      (outcome (finish ((handleGetversion P).run (received d a)))).2 := by
  have htake := take_patch_zero (patch d.io 0 a.1) P.version.1
  have hle := le_length_patch (received d a).dev.io P.version.1
  rw [P.version.2] at htake hle
  rw [run_handleGetversion, finish, outcome_catchOther hle rfl]
  simp only [received, Nat.zero_add, htake]
  exact .version h

/-- An APDU that is too short is refused, whatever class the APDU buffer shows. -/
theorem short_effect {d : Device} {a : Apdu} (hlen : ¬apduMinLength ≤ a.1.length) :
    Effect P d a (outcome (finish ((dispatch P a.1.length).run (received d a)))).1
      (outcome (finish ((dispatch P a.1.length).run (received d a)))).2 := by
  have hr : ∀ ins ∈ [insGetAddr, insSign, insGetSig, insGetPk], ¬Reaches d a ins := fun ins _ h => hlen h.length
  have hshort : a.1.length < apduMinLength := by omega
  unfold dispatch
  rw [run_bind_of_ok (run_get _), run_ite]
  split
  · exact refused P _ hr (Or.inr (Or.inl hshort)) (by decide)
  · exact refused P _ hr (Or.inr (Or.inl hshort)) (by decide)

end EffectAux

/-- All that an APDU can do to the app. -/
theorem receive_effect (d : Device) (a : Apdu) : Effect P d a (receive P a d).1 (receive P a d).2 := by
  have hreceive : receive P a d = outcome (finish ((dispatch P a.1.length).run (received d a))) := rfl
  rw [hreceive]
  by_cases hlen : apduMinLength ≤ a.1.length
  · have byte : ∀ i, i < apduMinLength → (received d a).dev.io.getD i 0 = a.byte i := fun i hi =>
      getD_patch (Nat.lt_of_lt_of_le hi hlen)
    rw [run_dispatch P hlen, byte offsetCla (by decide), byte offsetIns (by decide),
      show (received d a).dev.store = d.store from rfl, show (received d a).dev.pinValidated = d.pinValidated from rfl]
    by_cases hcla : a.byte offsetCla ≠ cla
    · rw [if_pos hcla]
      exact EffectAux.refused P _ (fun ins _ h => hcla h.cla) (Or.inr (Or.inr hcla)) (by decide)
    rw [if_neg hcla]
    by_cases hready : (!d.store.deviceInitialized) = true ∧ a.byte offsetIns ≠ insGetVersion
    · rw [if_pos hready]
      refine EffectAux.refused P _ ?_ (Or.inl hready.2) (by decide)
      intro ins _ h
      simp [h.ready] at hready
    rw [if_neg hready]
    by_cases hver : a.byte offsetIns = insGetVersion
    · rw [if_pos hver]
      exact EffectAux.getVersion_effect P hver
    rw [if_neg hver]
    have hinit : d.store.deviceInitialized = true := by
      cases hi : d.store.deviceInitialized with
      | true => rfl
      | false => exact absurd ⟨by rw [hi]; rfl, hver⟩ hready
    by_cases hins : a.byte offsetIns ∉ [insGetAddr, insSign, insGetSig, insGetPk]
    · rw [if_pos hins]
      exact EffectAux.refused P _ (fun ins hmem h => hins (h.ins ▸ hmem)) (Or.inl hver) (by decide)
    rw [if_neg hins]
    by_cases hpin : d.pinValidated = false
    · rw [if_pos hpin]
      refine EffectAux.refused P _ ?_ (Or.inl hver) ⟨P.pinCode_ne_ok, P.pinCode_lt⟩
      intro ins _ h
      rw [h.pin] at hpin
      cases hpin
    rw [if_neg hpin]
    have reaches : ∀ ins, a.byte offsetIns = ins → Reaches d a ins := fun ins h =>
      ⟨hlen, not_not.1 hcla, h, hinit, by simpa using hpin⟩
    by_cases h1 : a.byte offsetIns = insGetAddr
    · rw [if_pos h1]
      exact EffectAux.getAddr_effect P (reaches _ h1)
    rw [if_neg h1]
    by_cases h2 : a.byte offsetIns = insSign
    · rw [if_pos h2]
      obtain ⟨io, u, r, o, hs, heq⟩ := handleSign_effect P d a hlen
      rw [heq]
      exact .sign (reaches _ h2) hs
    rw [if_neg h2]
    by_cases h3 : a.byte offsetIns = insGetSig
    · rw [if_pos h3]
      exact EffectAux.getSig_effect P (reaches _ h3)
    · rw [if_neg h3]
      have h4 : a.byte offsetIns = insGetPk := by
        have := not_not.1 hins
        simpa [h1, h2, h3] using this
      exact EffectAux.getPk_effect P (reaches _ h4)
  · exact EffectAux.short_effect P hlen

/-! ## The callbacks of a review -/

/-- `crypto_sign` succeeds, with this digest and this signature. -/
structure Signs (u : Upload) (s : CryptoStore) (salt : Nat) (digest : List UInt8) (sig : ByteArr 512) : Prop where
  initialized : s.slot.initialized = true
  hashed : parserGetDigest P.sha384 u.buffering.data u.parserTxObj sha384DigestLen = .ok digest
  signed : P.rsaSign s.slot.rsaPriv salt (P.sha256 digest) = some sig

/-- A successful `crypto_sign` leaves the signature in the store and returns the digest; one that fails changes nothing. -/
theorem run_cryptoSign (u : Upload) (s : CryptoStore) (salt : Nat) :
    (∃ digest sig, Signs P u s salt digest sig ∧
      (cryptoSign P u salt (ioApduBufferSize - 3)).run s = .ok digest (cryptoStoreSignature sig s)) ∨
    ((∀ digest sig, ¬Signs P u s salt digest sig) ∧
      ∃ e, (cryptoSign P u salt (ioApduBufferSize - 3)).run s = .error e s) := by
  unfold cryptoSign
  rw [run_bind_of_ok (run_get s)]
  cases hi : s.slot.initialized with
  | false =>
    refine Or.inr ⟨fun _ _ h => absurd (h.initialized.symm.trans hi) nofun, .invalidCryptoSettings, ?_⟩
    rw [if_pos (by rw [cryptoStoreIsInitialized, hi]; rfl), run_throw]
  | true =>
    rw [if_neg (by rw [cryptoStoreIsInitialized, hi]; nofun), if_neg (by decide)]
    cases hd : parserGetDigest P.sha384 u.buffering.data u.parserTxObj sha384DigestLen with
    | error e =>
      refine Or.inr ⟨?_, _, rfl⟩
      intro _ _ h
      rw [h.hashed] at hd
      cases hd
    | ok digest =>
      have hk : cryptoStoreGetPrivkey s = some s.slot.rsaPriv := by
        rw [cryptoStoreGetPrivkey, cryptoStoreIsInitialized, hi, if_pos rfl]
      simp only [hk]
      cases hsig : P.rsaSign s.slot.rsaPriv salt (P.sha256 digest) with
      | none =>
        refine Or.inr ⟨?_, _, rfl⟩
        intro digest' _ h
        have hdig := h.hashed
        rw [hd] at hdig
        cases hdig
        have := h.signed
        rw [hsig] at this
        cases this
      | some sig => exact Or.inl ⟨digest, sig, ⟨hi, hd, hsig⟩, rfl⟩

/-- What an approval does. -/
inductive ApproveEffect (d : Device) (salt : Nat) : Device → Output → Prop where
  | idle (hr : d.review = none) : ApproveEffect d salt d none
  | address {io : List UInt8} (hr : d.review = some .address) :
      ApproveEffect d salt { d with io := io, review := none } (some (io.take (d.actionAddrResponseLen + 2)))
  | signed {io digest : List UInt8} {sig : ByteArr 512} (hr : d.review = some .txn)
      (hs : Signs P d.upload d.store salt digest sig) :
      ApproveEffect d salt { d with io := io, review := none, store := cryptoStoreSignature sig d.store }
        (some (digest ++ swBytes apduCodeOk))
  | failed {io : List UInt8} (hr : d.review = some .txn) (hs : ∀ digest sig, ¬Signs P d.upload d.store salt digest sig) :
      ApproveEffect d salt { d with io := io, review := none } (some (swBytes apduCodeSignVerifyError))

/-- An approval, by what is under review. -/
theorem approve_effect (d : Device) (salt : Nat) :
    ApproveEffect P d salt (approve P salt d).1 (approve P salt d).2 := by
  unfold approve
  split
  · rename_i hr
    exact .idle hr
  · rename_i hr
    unfold appSign
    rcases run_cryptoSign P d.upload d.store salt with ⟨digest, sig, hs, hrun⟩ | ⟨hs, e, hrun⟩
    · have hlen : digest.length = sha384DigestLen := length_parserGetDigest P.sha384 hs.hashed
      have hle := le_length_patch d.io digest
      rw [hlen] at hle
      have htake := take_patch (swBytes apduCodeOk) hle
      have hpre := take_patch_zero d.io digest
      rw [hlen] at hpre
      rw [hpre] at htake
      simp only [hrun, replyWith]
      rw [show sha384DigestLen + 2 = sha384DigestLen + (swBytes apduCodeOk).length from rfl, htake]
      exact .signed hr hs
    · simp only [hrun, replyWith]
      exact .failed hr hs
  · rename_i hr
    exact .address hr

/-- What a rejection does: nothing but close the review. -/
theorem reject_effect (d : Device) :
    (d.review = none ∧ reject d = (d, none)) ∨
    ∃ io, reject d = ({ d with io := io, review := none }, some (swBytes apduCodeCommandNotAllowed)) := by
  unfold reject
  split
  · rename_i hr
    exact Or.inl ⟨hr, rfl⟩
  · exact Or.inr ⟨_, rfl⟩

/-! ## Frames -/

/-- The handler of a command. -/
def handlerOf (rx : Nat) (ins : UInt8) : Handler Unit :=
  if ins = insGetAddr then handleGetAddress P
  else if ins = insSign then handleSign P rx
  else if ins = insGetSig then handleGetSigPart
  else handleGetPubKeyPart

/-- A command that reaches its handler is answered by it. -/
theorem receive_of_reaches {d : Device} {a : Apdu} {ins : UInt8} (h : Reaches d a ins)
    (hmem : ins ∈ [insGetAddr, insSign, insGetSig, insGetPk]) :
    receive P a d = outcome (finish ((handlerOf P a.1.length ins).run (received d a))) := by
  have hbyte : ∀ i, i < apduMinLength → (received d a).dev.io.getD i 0 = a.byte i := fun i hi =>
    getD_patch (Nat.lt_of_lt_of_le hi h.length)
  have hver : ins ≠ insGetVersion := by
    rintro rfl
    revert hmem
    decide
  change outcome (finish ((dispatch P a.1.length).run (received d a))) = _
  rw [run_dispatch P h.length, hbyte offsetCla (by decide), hbyte offsetIns (by decide), h.ins,
    show (received d a).dev.store = d.store from rfl, show (received d a).dev.pinValidated = d.pinValidated from rfl,
    h.cla, h.ready, h.pin, if_neg (not_not.2 rfl), if_neg (fun hc => by cases hc.1), if_neg hver, if_neg (not_not.2 hmem),
    if_neg nofun, handlerOf, run_ite, run_ite, run_ite]

/-- A `SIGN` command that reached its handler does what `SignEffect` says, and nothing else. -/
theorem step_of_reaches_sign {d : Device} {a : Apdu} (h : Reaches d a insSign) :
    ∃ io u r o, SignEffect P d a u r o ∧ d.step P (.apdu a) = ({ d with io := io, upload := u, review := r }, o) := by
  obtain ⟨io, u, r, o, hs, heq⟩ := handleSign_effect P d a h.length
  refine ⟨io, u, r, o, hs, ?_⟩
  change receive P a d = _
  rw [receive_of_reaches P h (by decide)]
  exact heq

/-- A `GET_SIG` command: a half of the signature while one waits, an error otherwise. -/
theorem step_of_reaches_getSig {d : Device} {a : Apdu} (h : Reaches d a insGetSig) :
    ∃ io, d.step P (.apdu a) =
      if a.byte offsetDataLen = 0 ∧ d.store.signatureSet = 1 ∧ a.p2.toNat ≤ 1 then
        ({ d with io := io, store := if a.p2.toNat = 1 then clearSignature d.store else d.store },
          some (slice (d.store.nCryptoSig d.store.slotInUse).1 (a.p2.toNat * rsaModulusHalve) rsaModulusHalve ++
            swBytes apduCodeOk))
      else ({ d with io := io }, some (swBytes (if a.byte offsetDataLen = 0 then apduCodeConditionsNotSatisfied
        else apduCodeCommandNotAllowed))) := by
  obtain ⟨io, heq⟩ := EffectAux.outcome_handleGetSigPart h
  refine ⟨io, ?_⟩
  change receive P a d = _
  rw [receive_of_reaches P h (by decide)]
  exact heq

/-- The key store is left alone by every command but `GET_SIG`. -/
theorem step_store_of_not_getSig {d : Device} {a : Apdu} (h : ¬Reaches d a insGetSig) :
    (d.step P (.apdu a)).1.store = d.store := by
  change (receive P a d).1.store = d.store
  have he := receive_effect P d a
  generalize hd : (receive P a d).1 = d' at he ⊢
  generalize (receive P a d).2 = o at he
  cases he with
  | sig hr => exact absurd hr h
  | _ => rfl

/-- The keys of a store and which of them are in use are those of another. -/
structure KeysKept (s s' : CryptoStore) : Prop where
  ready : s'.deviceInitialized = s.deviceInitialized
  slots : s'.nCryptoStore = s.nCryptoStore
  use : s'.slotInUse = s.slotInUse

/-- A step that does not touch the store. -/
theorem KeysKept.refl (s : CryptoStore) : KeysKept s s := ⟨rfl, rfl, rfl⟩

/-- Nothing but the initialisation changes a key. -/
theorem step_keys {d : Device} {ev : Event} (h : ∀ phrase fails, ev ≠ .storeInit phrase fails) :
    KeysKept d.store (d.step P ev).1.store := by
  have same : ∀ {s}, s = d.store → KeysKept d.store s := fun h => h ▸ KeysKept.refl _
  cases ev with
  | apdu a =>
    by_cases hr : Reaches d a insGetSig
    · obtain ⟨io, hstep⟩ := step_of_reaches_getSig P hr
      rw [hstep]
      split
      · split
        · exact ⟨rfl, rfl, rfl⟩
        · exact same rfl
      · exact same rfl
    · exact same (step_store_of_not_getSig P hr)
  | approve salt =>
    have he := approve_effect P d salt
    change KeysKept d.store (approve P salt d).1.store
    generalize (approve P salt d).1 = d' at he ⊢
    generalize (approve P salt d).2 = o at he
    cases he with
    | signed => exact ⟨rfl, rfl, rfl⟩
    | _ => exact same rfl
  | reject =>
    change KeysKept d.store (reject d).1.store
    rcases reject_effect d with ⟨-, h⟩ | ⟨io, h⟩ <;> rw [h] <;> exact same rfl
  | storeInit phrase fails => exact absurd rfl (h phrase fails)
  | setExpert on => exact same rfl
  | setPin validated => exact same rfl

/-- What a step leaves alone when no `SIGN` command reaches its handler. -/
theorem step_upload_of_not_sign {d : Device} {ev : Event} (h : ∀ a, ev = .apdu a → ¬Reaches d a insSign) :
    (d.step P ev).1.upload = d.upload := by
  cases ev with
  | apdu a =>
    change (receive P a d).1.upload = d.upload
    have he := receive_effect P d a
    generalize hd : (receive P a d).1 = d' at he ⊢
    generalize (receive P a d).2 = o at he
    cases he with
    | sign hr _ => exact absurd hr (h a rfl)
    | _ => rfl
  | approve salt =>
    change (approve P salt d).1.upload = d.upload
    have he := approve_effect P d salt
    generalize hd : (approve P salt d).1 = d' at he ⊢
    generalize (approve P salt d).2 = o at he
    cases he <;> rfl
  | reject =>
    change (reject d).1.upload = d.upload
    rcases reject_effect d with ⟨-, h⟩ | ⟨io, h⟩ <;> rw [h]
  | storeInit phrase fails =>
    change (storeInit P phrase fails d).1.upload = d.upload
    unfold storeInit
    split <;> rfl
  | setExpert on => rfl
  | setPin validated => rfl

/-- A review is pending after a step only when one was before, or when the device is initialised. -/
theorem step_review {d : Device} {ev : Event} (h : (d.step P ev).1.review ≠ none) :
    d.review ≠ none ∨ d.store.deviceInitialized = true := by
  cases ev with
  | apdu a =>
    change (receive P a d).1.review ≠ none at h
    have he := receive_effect P d a
    generalize (receive P a d).1 = d' at he h
    generalize (receive P a d).2 = o at he
    cases he with
    | addressReview hr => exact Or.inr hr.ready
    | sign hr _ => exact Or.inr hr.ready
    | _ => exact Or.inl h
  | approve salt =>
    change (approve P salt d).1.review ≠ none at h
    have he := approve_effect P d salt
    generalize (approve P salt d).1 = d' at he h
    generalize (approve P salt d).2 = o at he
    cases he with
    | idle _ => exact Or.inl h
    | _ => exact absurd rfl h
  | reject =>
    change (reject d).1.review ≠ none at h
    rcases reject_effect d with ⟨-, he⟩ | ⟨io, he⟩
    · rw [he] at h
      exact Or.inl h
    · rw [he] at h
      exact absurd rfl h
  | storeInit phrase fails =>
    change (storeInit P phrase fails d).1.review ≠ none at h
    unfold storeInit at h
    split at h <;> exact Or.inl h
  | setExpert on => exact Or.inl h
  | setPin validated => exact Or.inl h

end

end LedgerArweave
