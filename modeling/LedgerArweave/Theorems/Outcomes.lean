import LedgerArweave.Decisions
import LedgerArweave.Theorems.Refusals
import LedgerArweave.Theorems.Wallet

/-!
# What `sign` reports

On an open device `sign` ends in one of four ways, and its result tells which: the transaction is too long for the buffer, the
app refuses it, the user rejects it, or the user approves and it is signed. The code, the text and what is left on the device are
those of the case, and when the app refuses, the text is the description of the first check that the transaction fails.
-/

namespace LedgerArweave

open Lib

/-- The ways `sign` ends when the user decides so at the review: its result, and the key store of the device afterwards. -/
inductive SignOutcome (P : Platform) (H : List UInt8 → ByteArr 48) (d : Device) (tx : TxFields) (user : Decision) :
    SignResult → CryptoStore → Prop where
  | tooLong (hlong : d.upload.buffering.data.length < (encodeTx tx).length) :
      SignOutcome P H d tx user ⟨none, none, .number 0x6983, "Output buffer too small", none, none⟩ d.store
  /-- The answer is handed on as a digest, cut to the length of one. -/
  | refused {e : ParserError} (hfits : (encodeTx tx).length ≤ d.upload.buffering.data.length)
      (he : tx.refusal P d.store d.expert = some e) :
      SignOutcome P H d tx user ⟨none, none, .number 0x6984, "Data is invalid : " ++ parserGetErrorDescription e,
        some ((ascii (parserGetErrorDescription e) ++ swBytes apduCodeDataInvalid).take 48), none⟩ d.store
  | rejected (hfits : (encodeTx tx).length ≤ d.upload.buffering.data.length) (hok : tx.refusal P d.store d.expert = none)
      (hreject : user = none) :
      SignOutcome P H d tx user ⟨none, none, .number 0x6986, "Transaction rejected", none, none⟩ d.store
  | signed {salt : Nat} {sig : ByteArr 512} (hfits : (encodeTx tx).length ≤ d.upload.buffering.data.length)
      (hok : tx.refusal P d.store d.expert = none) (happrove : user = some salt)
      (hsig : P.rsaSign d.store.slot.rsaPriv salt (P.sha256 (deepHash H tx.tree).1) = some sig) :
      SignOutcome P H d tx user ⟨some (deepHash H tx.tree).1, some sig.1, ReturnCode.noError, "No errors", none, none⟩
        (clearSignature (cryptoStoreSignature sig d.store))

namespace OutcomesAux

open EndToEndAux SigningAux ExchangeAux WalletAux

/-! ## What the client makes of an answer -/

/-- The result of a chunk that was answered. -/
def chunkResult (body : List UInt8) (sw : StatusWord) : ChunkResult :=
  if sw ∈ [0x9000, 0x6984, 0x6a80] then chunkAnswered (answer body sw)
  else ⟨none, .number sw, errorCodeToString (.number sw)⟩

theorem chunkResult_returnCode (body : List UInt8) {sw : StatusWord} (hsw : sw < 0x10000) :
    (chunkResult body sw).returnCode = .number sw := by
  unfold chunkResult
  split
  · exact congrArg ReturnCode.number (returnCodeOf_answer body hsw)
  · rfl

/-- The descriptions of the errors are ASCII. -/
theorem toAscii_description (e : ParserError) : toAscii (ascii (parserGetErrorDescription e)) = parserGetErrorDescription e := by
  cases e <;> decide +kernel

/-- A refusal is shown with its description. -/
theorem chunkResult_refused (e : ParserError) :
    (chunkResult (ascii (parserGetErrorDescription e)) apduCodeDataInvalid).errorMessage =
      "Data is invalid : " ++ parserGetErrorDescription e := by
  have hcode : returnCodeOf (answer (ascii (parserGetErrorDescription e)) apduCodeDataInvalid) = apduCodeDataInvalid :=
    returnCodeOf_answer _ (by decide)
  have hbody : (answer (ascii (parserGetErrorDescription e)) apduCodeDataInvalid).1.take
      ((answer (ascii (parserGetErrorDescription e)) apduCodeDataInvalid).1.length - 2) = ascii (parserGetErrorDescription e) := by
    rw [answer, List.length_append, show (swBytes apduCodeDataInvalid).length = 2 from rfl, Nat.add_sub_cancel, List.take_left]
  rw [chunkResult, if_pos (by decide), chunkAnswered, hcode, hbody, toAscii_description]
  simp only [if_pos (show apduCodeDataInvalid = 0x6a80 ∨ apduCodeDataInvalid = 0x6984 from Or.inr rfl)]
  rw [show errorCodeToString (.number apduCodeDataInvalid) ++ " : " = "Data is invalid : " by decide +kernel]

/-- What is handed on with a refusal. -/
theorem chunkResult_refused_output (e : ParserError) :
    (chunkResult (ascii (parserGetErrorDescription e)) apduCodeDataInvalid).output =
      some ((ascii (parserGetErrorDescription e) ++ swBytes apduCodeDataInvalid).take 48) := by
  have hlong : (answer (ascii (parserGetErrorDescription e)) apduCodeDataInvalid).1.length > 2 := by
    cases e <;> decide
  rw [chunkResult, if_pos (by decide), chunkAnswered]
  exact if_pos hlong

/-- A digest is handed on. -/
theorem chunkResult_digest (digest : ByteArr 48) :
    chunkResult digest.1 apduCodeOk = ⟨some digest.1, ReturnCode.noError, "No errors"⟩ := by
  have hcode : returnCodeOf (answer digest.1 apduCodeOk) = apduCodeOk := returnCodeOf_answer _ (by decide)
  have hlen : (answer digest.1 apduCodeOk).1.length = 50 := by
    rw [answer, List.length_append, digest.2]
    rfl
  have htake : (answer digest.1 apduCodeOk).1.take 48 = digest.1 := List.take_left' digest.2
  rw [chunkResult, if_pos (by decide), chunkAnswered, hcode, hlen, htake]
  rfl

/-! ## The last chunk -/

/-- What becomes of a message: the answer to its last chunk, or to the first one there is no room for, and the device then. -/
inductive MessageOutcome (P : Platform) (d₀ : Device) (content : List UInt8) (user : Decision) :
    List UInt8 → StatusWord → Device → Prop where
  | tooLong {d : Device} (hlong : ¬content.length ≤ d₀.upload.buffering.data.length) (hstore : d.store = d₀.store) :
      MessageOutcome P d₀ content user [] apduCodeOutputBufferTooSmall d
  | refused {d : Device} {u u' : Upload} {e : ParserError} (hfits : content.length ≤ d₀.upload.buffering.data.length)
      (hu : Holding d₀ content u) (hparse : (txParse P d₀.store d₀.expert).run u = .error e u') (hstore : d.store = d₀.store) :
      MessageOutcome P d₀ content user (ascii (parserGetErrorDescription e)) apduCodeDataInvalid d
  | rejected {d : Device} {u u' : Upload} (hfits : content.length ≤ d₀.upload.buffering.data.length)
      (hu : Holding d₀ content u) (hparse : (txParse P d₀.store d₀.expert).run u = .ok () u') (hstore : d.store = d₀.store)
      (hreject : user = none) : MessageOutcome P d₀ content user [] apduCodeCommandNotAllowed d
  | signed {d : Device} {u u' : Upload} {salt : Nat} {digest : List UInt8} {sig : ByteArr 512}
      (hfits : content.length ≤ d₀.upload.buffering.data.length) (hu : Holding d₀ content u)
      (hparse : (txParse P d₀.store d₀.expert).run u = .ok () u') (hs : Signs P u' d₀.store salt digest sig)
      (hwait : Waiting d₀ d sig) (happrove : user = some salt) : MessageOutcome P d₀ content user digest apduCodeOk d

/-- The last chunk, whatever the user decides. -/
theorem exchangeBy_last {P : Platform} {H : List UInt8 → ByteArr 48} {d₀ d : Device} {a : Apdu} {content : List UInt8}
    (hP : AnswersCalls P H d₀.store) (hbuffer : d₀.upload.buffering.data.length ≤ 16384) (user : Decision)
    (hu : Receiving d₀ d content) (hr : Reaches d a insSign) (h2 : a.p2 = 0) (h1 : a.p1 = p1Last) :
    ∃ body sw, (exchangeBy P user d a).2 = some (body ++ swBytes sw) ∧ sw < 0x10000 ∧
      MessageOutcome P d₀ (content ++ a.data) user body sw (exchangeBy P user d a).1 := by
  have hlast := step_last hP hu hr h2 h1
  unfold exchangeBy
  generalize d.step P (.apdu a) = r at hlast ⊢
  obtain ⟨d', o⟩ := r
  cases hlast with
  | full hlong hstore => exact ⟨[], _, rfl, by decide, .tooLong hlong hstore⟩
  | refused hfits hu hparse hstore => exact ⟨_, _, rfl, by decide, .refused hfits hu hparse hstore⟩
  | review hfits hu hparse hreview hstore hpin =>
    cases user with
    | some salt =>
      obtain ⟨digest, sig, hs, hout, hwait⟩ := approve_review hP hbuffer salt hu hparse hreview hstore hpin
      exact ⟨digest, _, hout, by decide, .signed hfits hu hparse hs hwait rfl⟩
    | none =>
      change ∃ body sw, (reject d').2 = some (body ++ swBytes sw) ∧ sw < 0x10000 ∧
        MessageOutcome P d₀ (content ++ a.data) none body sw (reject d').1
      rcases reject_effect d' with ⟨hnone, -⟩ | ⟨io, hreject⟩
      · exact absurd (hnone.symm.trans hreview) nofun
      · rw [hreject]
        exact ⟨[], _, rfl, by decide, .rejected hfits hu hparse hstore rfl⟩

/-! ## The chunks -/

section

variable {P : Platform} {H : List UInt8 → ByteArr 48} {τ : Type} {T : Transport τ} {device : τ → Device}
  {user : τ → Request → Decision} {d₀ : Device} (hT : DeliversBy P T device user)
include hT

/-- A chunk sent: the client has the result of the answer. -/
theorem run_signSendChunk_by (chunkIdx chunkNum : Nat) {chunk : List UInt8} (hlen : chunk.length ≤ 255) {w : Wire τ}
    {Q : List UInt8 → StatusWord → Device → Prop}
    (h : ∃ body sw,
      (exchangeBy P (user w.transport (chunkRequest chunkIdx chunkNum chunk)) (device w.transport)
        ((chunkRequest chunkIdx chunkNum chunk).apdu hlen)).2 = some (body ++ swBytes sw) ∧ sw < 0x10000 ∧
      Q body sw (exchangeBy P (user w.transport (chunkRequest chunkIdx chunkNum chunk)) (device w.transport)
        ((chunkRequest chunkIdx chunkNum chunk).apdu hlen)).1) :
    ∃ body sw w', (signSendChunk T chunkIdx chunkNum chunk).run w = .ok (chunkResult body sw) w' ∧ sw < 0x10000 ∧
      w'.transport = (T w.transport (chunkRequest chunkIdx chunkNum chunk)).1 ∧ Q body sw (device w'.transport) := by
  obtain ⟨hdev, hout⟩ := hT w.transport (chunkRequest chunkIdx chunkNum chunk) hlen
  obtain ⟨body, sw, ho, hsw, hq⟩ := h
  refine ⟨body, sw, ⟨(T w.transport (chunkRequest chunkIdx chunkNum chunk)).1, w.sent ++ [chunkRequest chunkIdx chunkNum chunk]⟩,
    ?_, hsw, rfl, ?_⟩
  · unfold signSendChunk chunkResult
    rw [run_settled hsw (hout body sw ho)]
    change (if sw ∈ [0x9000, 0x6984, 0x6a80] then _ else _ : Promise τ ChunkResult).run _ = _
    split <;> rfl
  · change Q body sw (device (T w.transport (chunkRequest chunkIdx chunkNum chunk)).1)
    rw [hdev]
    exact hq

variable (hP : AnswersCalls P H d₀.store)

include hP

/-- The loop after the first chunk: the induction is on the chunks, and `Receiving` carries what was collected. The user decides
when the last chunk is sent. -/
theorem run_sendChunks_by (hready : d₀.store.deviceInitialized = true) (hpin : d₀.pinValidated = true)
    (hbuffer : d₀.upload.buffering.data.length ≤ 16384) (chunkNum : Nat) :
    ∀ (chunks : List (List UInt8)) (i : Nat) (content : List UInt8) (result : ChunkResult) (w : Wire τ), chunks ≠ [] →
      i + chunks.length = chunkNum → 0 < i → (∀ c ∈ chunks, c.length ≤ 255) → Receiving d₀ (device w.transport) content →
      ∃ earlier last body sw w', requestsFrom chunkNum i chunks = earlier ++ [last] ∧
        (sendChunks T chunkNum i chunks result).run w = .ok (chunkResult body sw) w' ∧ sw < 0x10000 ∧
        MessageOutcome P d₀ (content ++ chunks.flatten) (user (after T w.transport earlier) last) body sw
          (device w'.transport) := by
  intro chunks
  induction chunks with
  | nil => intro i content result w hne; exact absurd rfl hne
  | cons chunk chunks ih =>
    intro i content result w _ hnum hi hlen hu
    rw [List.length_cons] at hnum
    have hl : chunk.length ≤ 255 := hlen chunk List.mem_cons_self
    have hr : Reaches (device w.transport) ((chunkRequest (1 + i) chunkNum chunk).apdu hl) insSign :=
      Request.reaches hl rfl (by rw [hu.store]; exact hready) (by rw [hu.pin]; exact hpin)
    rw [sendChunks, List.flatten_cons, ← List.append_assoc]
    by_cases hnil : chunks = []
    · -- the last chunk
      subst hnil
      have h1 : payloadType (1 + i) chunkNum = p1Last := by
        unfold payloadType
        rw [if_pos (by rw [← hnum, List.length_nil]; omega)]
        rfl
      obtain ⟨body, sw, w', hrun, hsw, -, hq⟩ := run_signSendChunk_by hT (1 + i) chunkNum hl (w := w)
        (exchangeBy_last hP hbuffer (user w.transport (chunkRequest (1 + i) chunkNum chunk)) hu hr rfl h1)
      rw [List.flatten_nil, List.append_nil]
      refine ⟨[], chunkRequest (1 + i) chunkNum chunk, body, sw, w', rfl, ?_, hsw, hq⟩
      rw [run_bind_of_ok hrun, run_ite]
      split <;> rfl
    · have hpos := List.length_pos_iff.2 hnil
      have h1 : payloadType (1 + i) chunkNum = p1Add := by
        unfold payloadType
        rw [if_neg (by omega), if_neg (by omega)]
        rfl
      obtain ⟨body, sw, w', hrun, hsw, hw', hbody, hsettled⟩ := run_signSendChunk_by hT (1 + i) chunkNum hl (w := w)
        (Q := fun body sw d => body = [] ∧ AddSettled d₀ (content ++ chunk) sw d) (by
          obtain ⟨d', sw, hstep, hsettled⟩ := step_add hP hu hr rfl h1
          rw [exchangeBy_of_answered _ hstep]
          exact ⟨[], sw, rfl, hsettled.sw_lt, rfl, hsettled⟩)
      rw [run_bind_of_ok hrun]
      rcases hsettled with ⟨hok, hu'⟩ | ⟨hno, hfull, hstore⟩
      · have hgo : (chunkResult body sw).returnCode = ReturnCode.noError := by
          rw [chunkResult_returnCode body hsw, hok]
          rfl
        rw [if_neg (not_not.2 hgo)]
        obtain ⟨earlier, last, body, sw, w'', hrequests, hrest⟩ := ih (i + 1) (content ++ chunk) _ w' hnil (by omega)
          (Nat.succ_pos i) (fun c hc => hlen c (List.mem_cons_of_mem _ hc)) hu'
        rw [hw'] at hrest
        refine ⟨chunkRequest (1 + i) chunkNum chunk :: earlier, last, body, sw, w'', ?_, hrest⟩
        rw [requestsFrom, hrequests]
        rfl
      · -- there is no room for the rest of the message either
        subst hno hbody
        have hstop : (chunkResult [] apduCodeOutputBufferTooSmall).returnCode ≠ ReturnCode.noError := by
          rw [chunkResult_returnCode [] hsw]
          decide
        rw [if_pos hstop]
        have hrequests : requestsFrom chunkNum i (chunk :: chunks) ≠ [] := List.cons_ne_nil _ _
        refine ⟨_, _, [], _, w', (List.dropLast_append_getLast hrequests).symm, rfl, hsw, .tooLong (fun h => hfull ?_) hstore⟩
        rw [List.length_append] at h
        exact Nat.le_trans (Nat.le_add_right _ _) h

/-- All chunks. -/
theorem run_signGetDigest_by (tx : TxFields) {w : Wire τ} (hd : device w.transport = d₀)
    (hready : d₀.store.deviceInitialized = true) (hpin : d₀.pinValidated = true)
    (hbuffer : d₀.upload.buffering.data.length ≤ 16384) :
    ∃ earlier last body sw w', chunkRequests tx = earlier ++ [last] ∧ (signGetDigest T tx).run w =
        .ok ⟨(chunkResult body sw).returnCode, (chunkResult body sw).errorMessage, (chunkResult body sw).output⟩ w' ∧
      sw < 0x10000 ∧
      MessageOutcome P d₀ (encodeTx tx) (user (after T w.transport earlier) last) body sw (device w'.transport) := by
  have hne : sliceChunks (encodeTx tx) ≠ [] := sliceChunks_ne_nil (encodeTx_ne_nil tx)
  have hnum : (prepareChunks tx).length = 1 + (sliceChunks (encodeTx tx)).length := Nat.add_comm _ _
  have hfit : ∀ c ∈ prepareChunks tx, c.length ≤ 255 := fun c hc => Nat.le_trans (length_chunk_le hc) (by decide)
  have hpos := List.length_pos_iff.2 hne
  have htype : payloadType 1 (prepareChunks tx).length = Common.payloadInit := by
    unfold payloadType
    rw [if_neg (by omega), if_pos rfl]
  have hl := hfit (List.replicate 20 0) List.mem_cons_self
  have hr : Reaches (device w.transport) ((chunkRequest 1 (prepareChunks tx).length (List.replicate 20 0)).apdu hl) insSign :=
    Request.reaches hl rfl (by rw [hd]; exact hready) (by rw [hd]; exact hpin)
  obtain ⟨_, _, w₁, hchunk, -, hw₁, hstart⟩ := run_signSendChunk_by hT 1 (prepareChunks tx).length hl
    (Q := fun _ _ d => Receiving d₀ d []) (w := w) (by
      obtain ⟨d', hstep, hu⟩ := step_init hr rfl htype
      rw [exchangeBy_of_answered _ hstep]
      exact ⟨[], apduCodeOk, rfl, by decide, hd ▸ hu⟩)
  obtain ⟨earlier, last, body, sw, w', hrequests, hloop, hsw, houtcome⟩ := run_sendChunks_by hT hP hready hpin hbuffer
    (prepareChunks tx).length (sliceChunks (encodeTx tx)) 1 [] _ w₁ hne hnum.symm Nat.one_pos
    (fun c hc => hfit c (List.mem_cons_of_mem _ hc)) hstart
  rw [List.nil_append, flatten_sliceChunks, hw₁] at houtcome
  refine ⟨chunkRequest 1 (prepareChunks tx).length (List.replicate 20 0) :: earlier, last, body, sw, w', ?_, ?_, hsw, houtcome⟩
  · exact congrArg (List.cons _) hrequests
  unfold signGetDigest
  rw [run_thenElse_of_ok (by exact hchunk)]
  rw [show (prepareChunks tx).tail = sliceChunks (encodeTx tx) from rfl, run_bind_of_ok hloop]
  rfl

omit hP in
/-- A half of the signature that waits; the second one clears it. -/
theorem run_getSignaturePart_by {i : Nat} (hi : i ≤ 1) {w : Wire τ}
    (hready : (device w.transport).store.deviceInitialized = true) (hpin : (device w.transport).pinValidated = true)
    (hset : (device w.transport).store.signatureSet = 1) :
    ∃ w', (getSignaturePart T i).run w =
        .ok ⟨some (slice ((device w.transport).store.nCryptoSig (device w.transport).store.slotInUse).1
          (i * rsaModulusHalve) rsaModulusHalve), ReturnCode.noError, Wallet.noErrors⟩ w' ∧
      (device w'.transport).pinValidated = true ∧
      (device w'.transport).store = if i = 1 then clearSignature (device w.transport).store else (device w.transport).store := by
  have hindex : ((signatureRequest i).apdu (Nat.zero_le _)).p2.toNat = i := by
    obtain rfl | rfl : i = 0 ∨ i = 1 := by omega
    · rfl
    · rfl
  have hr : Reaches (device w.transport) ((signatureRequest i).apdu (Nat.zero_le _)) insGetSig :=
    Request.reaches (Nat.zero_le _) rfl hready hpin
  obtain ⟨hdev, hout⟩ := hT w.transport (signatureRequest i) (Nat.zero_le _)
  obtain ⟨io, hstep⟩ := step_of_reaches_getSig P hr
  rw [if_pos ⟨rfl, hset, by rw [hindex]; exact hi⟩, hindex] at hstep
  rw [exchangeBy_of_answered _ hstep] at hdev hout
  refine ⟨⟨(T w.transport (signatureRequest i)).1, w.sent ++ [signatureRequest i]⟩, ?_, ?_, ?_⟩
  · unfold getSignaturePart
    rw [run_settled (show apduCodeOk < 0x10000 by decide) (hout _ _ rfl),
      if_pos (show apduCodeOk ∈ (signatureRequest i).statusList from List.mem_cons_self), processGetRSAResponse_half hi]
    rfl
  · change (device (T w.transport (signatureRequest i)).1).pinValidated = true
    rw [hdev]
    exact hpin
  · change (device (T w.transport (signatureRequest i)).1).store = _
    rw [hdev]

omit hP in
/-- Both halves of the signature that waits: together they are the signature, and none is left. -/
theorem run_signatureParts_by {d : Device} {sig : ByteArr 512} {w : Wire τ} (hw : Waiting d (device w.transport) sig)
    (hready : d.store.deviceInitialized = true) (hpin : d.pinValidated = true) :
    ∃ w₁ w₂, (getSignaturePart T 0).run w = .ok ⟨some (slice sig.1 0 256), ReturnCode.noError, Wallet.noErrors⟩ w₁ ∧
      (getSignaturePart T 1).run w₁ = .ok ⟨some (slice sig.1 256 256), ReturnCode.noError, Wallet.noErrors⟩ w₂ ∧
      (device w₂.transport).store = clearSignature (cryptoStoreSignature sig d.store) := by
  have hready' : (device w.transport).store.deviceInitialized = true := by
    rw [hw.store]
    exact hready
  have hset : (device w.transport).store.signatureSet = 1 := by
    rw [hw.store]
    rfl
  have hsig : (device w.transport).store.nCryptoSig (device w.transport).store.slotInUse = sig := by
    rw [hw.store]
    exact Function.update_self ..
  obtain ⟨w₁, hrun₁, hpin₁, hstore₁⟩ := run_getSignaturePart_by hT (Nat.zero_le 1) hready' (hw.pin.trans hpin) hset
  rw [if_neg (by decide)] at hstore₁
  obtain ⟨w₂, hrun₂, -, hstore₂⟩ := run_getSignaturePart_by hT (Nat.le_refl 1) (w := w₁) (by rw [hstore₁]; exact hready')
    hpin₁ (by rw [hstore₁]; exact hset)
  rw [if_pos rfl, hstore₁, hw.store] at hstore₂
  rw [hsig] at hrun₁
  rw [hstore₁, hsig] at hrun₂
  exact ⟨w₁, w₂, hrun₁, hrun₂, hstore₂⟩

end

/-! ## The message of a transaction -/

section

variable {P : Platform} {H : List UInt8 → ByteArr 48} {d₀ : Device} {tx : TxFields} {u : Upload} {user : Decision}

/-- What `tx_parse` says of the message of a transaction. -/
theorem refusal_eq_of_holding (hbuffer : d₀.upload.buffering.data.length ≤ 16384) (hu : Holding d₀ (encodeTx tx) u) :
    txParseError ((txParse P d₀.store d₀.expert).run u) = tx.refusal P d₀.store d₀.expert := by
  have hpos := hu.valid.pos_le
  have hcontent : u.buffering.content = tx.message ++ [] := by
    rw [hu.content, encodeTx_eq_message, List.append_nil]
  have hlen : u.buffering.content.length ≤ u.buffering.data.length := by
    rw [Buffering.content, List.length_take_of_le hpos]
    exact hpos
  have hcapacity := hu.capacity
  rw [hcontent] at hlen
  rw [RefusalsAux.txParseError_eq hu.valid (by omega), hcontent, RefusalsAux.refusalOf_message (by omega)]

theorem refusal_of_error (hbuffer : d₀.upload.buffering.data.length ≤ 16384) (hu : Holding d₀ (encodeTx tx) u)
    {u' : Upload} {e : ParserError} (hparse : (txParse P d₀.store d₀.expert).run u = .error e u') :
    tx.refusal P d₀.store d₀.expert = some e := by
  rw [← refusal_eq_of_holding hbuffer hu, hparse]
  rfl

theorem refusal_of_ok (hbuffer : d₀.upload.buffering.data.length ≤ 16384) (hu : Holding d₀ (encodeTx tx) u)
    {u' : Upload} (hparse : (txParse P d₀.store d₀.expert).run u = .ok () u') :
    tx.refusal P d₀.store d₀.expert = none := by
  rw [← refusal_eq_of_holding hbuffer hu, hparse]
  rfl

/-- A message that is not signed ends `sign`, with the code and the text of its outcome. -/
theorem MessageOutcome.signOutcome (hbuffer : d₀.upload.buffering.data.length ≤ 16384) {body : List UInt8} {sw : StatusWord}
    {d : Device} (hsw : sw < 0x10000) (h : MessageOutcome P d₀ (encodeTx tx) user body sw d) (hno : sw ≠ apduCodeOk) :
    SignOutcome P H d₀ tx user ⟨none, none, (chunkResult body sw).returnCode, (chunkResult body sw).errorMessage,
      (chunkResult body sw).output, none⟩ d.store := by
  rw [chunkResult_returnCode body hsw]
  cases h with
  | tooLong hlong hstore =>
    rw [hstore, show (chunkResult [] apduCodeOutputBufferTooSmall).errorMessage = "Output buffer too small" by decide +kernel]
    exact .tooLong (Nat.lt_of_not_le hlong)
  | refused hfits hu hparse hstore =>
    rw [hstore, chunkResult_refused, chunkResult_refused_output]
    exact .refused hfits (refusal_of_error hbuffer hu hparse)
  | rejected hfits hu hparse hstore hreject =>
    rw [hstore, show (chunkResult [] apduCodeCommandNotAllowed).errorMessage = "Transaction rejected" by decide +kernel]
    exact .rejected hfits (refusal_of_ok hbuffer hu hparse) hreject
  | signed => exact absurd rfl hno

/-- A message that is answered with success is signed. -/
theorem MessageOutcome.signed_of_ok (hP : AnswersCalls P H d₀.store) (hbuffer : d₀.upload.buffering.data.length ≤ 16384)
    {body : List UInt8} {d : Device} (h : MessageOutcome P d₀ (encodeTx tx) user body apduCodeOk d) :
    body = (deepHash H tx.tree).1 ∧ ∃ sig, Waiting d₀ d sig ∧
      SignOutcome P H d₀ tx user ⟨some (deepHash H tx.tree).1, some sig.1, ReturnCode.noError, "No errors", none, none⟩
        (clearSignature (cryptoStoreSignature sig d₀.store)) := by
  generalize hsw : apduCodeOk = sw at h
  cases h with
  | tooLong | refused | rejected => exact absurd hsw (by decide)
  | signed hfits hu hparse hs hwait happrove =>
    obtain ⟨-, rfl⟩ := digest_of_message P hP.hash hu.valid (by rw [hu.capacity]; omega)
      (by rw [hu.content, encodeTx_eq_message]) hparse hs
    exact ⟨rfl, _, hwait, .signed hfits (refusal_of_ok hbuffer hu hparse) happrove hs.signed⟩

end

end OutcomesAux

open OutcomesAux SigningAux ExchangeAux

/-- Over every transport that delivers every APDU and every answer to and from a device that is initialised and unlocked and has a
transaction buffer of at most 16384 bytes, in any state otherwise, with a platform that answers, whatever the user decides:
`sign` resolves, with the result and the key store of the outcome of what the user decided when the last chunk was sent. -/
theorem sign_outcome (P : Platform) {τ : Type} (T : Transport τ) (device : τ → Device) (user : τ → Request → Decision)
    (hT : DeliversBy P T device user) (H : List UInt8 → ByteArr 48) (t : τ) (hP : AnswersCalls P H (device t).store)
    (hready : (device t).store.deviceInitialized = true) (hpin : (device t).pinValidated = true)
    (hbuffer : (device t).upload.buffering.data.length ≤ 16384) (tx : TxFields) :
    ∃ r w earlier last, (sign T tx).run ⟨t, []⟩ = .ok r w ∧ chunkRequests tx = earlier ++ [last] ∧
      SignOutcome P H (device t) tx (user (after T t earlier) last) r (device w.transport).store := by
  obtain ⟨earlier, last, body, sw, w₁, hrequests, h1, hsw, houtcome⟩ :=
    run_signGetDigest_by hT hP tx (w := ⟨t, []⟩) rfl hready hpin hbuffer
  unfold sign
  rw [run_bind_of_ok h1]
  have hcode := chunkResult_returnCode body hsw
  by_cases hok : sw = apduCodeOk
  · subst hok
    obtain ⟨rfl, sig, hw, hsigned⟩ := houtcome.signed_of_ok hP hbuffer
    obtain ⟨w₂, w₃, h2, h3, hstore⟩ := run_signatureParts_by hT hw hready hpin
    rw [chunkResult_digest, if_neg (not_not.2 rfl), run_bind_of_ok h2, if_neg (not_not.2 rfl), run_bind_of_ok h3,
      if_neg (not_not.2 rfl)]
    rw [← hstore] at hsigned
    refine ⟨_, w₃, earlier, last, rfl, hrequests, ?_⟩
    rw [halves_append]
    exact hsigned
  · rw [if_pos (show (chunkResult body sw).returnCode ≠ ReturnCode.noError from fun h =>
      hok (ReturnCode.number.inj (hcode.symm.trans h)))]
    exact ⟨_, w₁, earlier, last, rfl, hrequests, houtcome.signOutcome hbuffer hsw hok⟩

/-- The demo transaction, over a cable: a user who approves gets its deep hash and a signature, and one who rejects is told so. -/
theorem sign_outcome_cable :
    (∃ r w sig, (sign (cableBy Demo.platform fun _ _ => some 0) Demo.tx).run ⟨Demo.device 1000, []⟩ = .ok r w ∧
      r = ⟨some (deepHash (ByteArr.ofList 48) Demo.tx.tree).1, some sig, ReturnCode.noError, "No errors", none, none⟩) ∧
    ∃ w, (sign (cableBy Demo.platform fun _ _ => none) Demo.tx).run ⟨Demo.device 1000, []⟩ =
        .ok ⟨none, none, .number 0x6986, "Transaction rejected", none, none⟩ w ∧ w.transport.store = (Demo.device 1000).store := by
  have hf : Demo.tx.Acceptable := ⟨rfl, List.length_replicate, by decide⟩
  have hlen : (encodeTx Demo.tx).length = 545 := by
    rw [encodeTx_eq_message, ValidationAux.length_message_demo hf rfl]
    rfl
  have hsize : (Demo.device 1000).upload.buffering.data.length = 1000 := List.length_replicate
  have hfits : ¬(Demo.device 1000).upload.buffering.data.length < (encodeTx Demo.tx).length := by
    rw [hsize, hlen]
    decide
  have hok : Demo.tx.refusal Demo.platform (Demo.device 1000).store (Demo.device 1000).expert = none := by decide +kernel
  have hrun : ∀ user : Decision, ∃ r w,
      (sign (cableBy Demo.platform fun _ _ => user) Demo.tx).run ⟨Demo.device 1000, []⟩ = .ok r w ∧
      SignOutcome Demo.platform (ByteArr.ofList 48) (Demo.device 1000) Demo.tx user r w.transport.store := by
    intro user
    obtain ⟨r, w, earlier, last, hrun, -, houtcome⟩ := sign_outcome Demo.platform _ id _
      (delivers_cableBy Demo.platform fun _ _ => user) (ByteArr.ofList 48) (Demo.device 1000) (answersCalls_demo _) rfl rfl
      (by rw [id, hsize]; decide) Demo.tx
    exact ⟨r, w, hrun, houtcome⟩
  constructor
  · obtain ⟨r, w, hrun, houtcome⟩ := hrun (some 0)
    generalize w.transport.store = s at houtcome
    cases houtcome with
    | tooLong hlong => exact absurd hlong hfits
    | refused _ he => exact absurd (hok.symm.trans he) nofun
    | rejected _ _ hreject => cases hreject
    | signed => exact ⟨_, w, _, hrun, rfl⟩
  · obtain ⟨r, w, hrun, houtcome⟩ := hrun none
    generalize hstore : w.transport.store = s at houtcome
    cases houtcome with
    | tooLong hlong => exact absurd hlong hfits
    | refused _ he => exact absurd (hok.symm.trans he) nofun
    | rejected => exact ⟨w, hrun, hstore⟩
    | signed _ _ happrove => cases happrove

end LedgerArweave
