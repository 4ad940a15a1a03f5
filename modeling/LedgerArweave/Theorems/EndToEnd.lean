import LedgerArweave.Link
import LedgerArweave.Theorems.Digest
import LedgerArweave.Demo

/-!
# From the host to the device and back

A signing of the client over a transport that delivers every APDU and every answer, on a device whose user approves: what a
success of `sign` says about the transaction. The steps of the proof are the stages of a signing: one request, the loop over the
chunks, the parse of the buffer at the last chunk, and the two halves of the signature.
-/

namespace LedgerArweave

open Lib

namespace EndToEndAux

/-- A device in the middle of an upload that began on `d₀`: what was appended so far is `content`. -/
structure Uploading (d₀ d : Device) (content : List UInt8) : Prop where
  store : d.store = d₀.store
  pin : d.pinValidated = d₀.pinValidated
  capacity : d.upload.buffering.data.length = d₀.upload.buffering.data.length
  valid : d.upload.buffering.Valid
  content : d.upload.buffering.content = content

section

variable (P : Platform)

/-- The last chunk was parsed, with `content` in the buffer, and signed: `d` is the device before it and `d'` after it. -/
structure Signed (d₀ d d' : Device) (a : Apdu) (content digest : List UInt8) (salt : Nat) (sig : ByteArr 512) : Prop where
  parsed : ∃ u u', ParseCall P d a u ∧ u.buffering.content = content ∧ u.buffering.Valid ∧
    u.buffering.data.length = d₀.upload.buffering.data.length ∧ (txParse P d.store d.expert).run u = .ok () u' ∧
    Signs P u' d₀.store salt digest sig
  store : d'.store = cryptoStoreSignature sig d₀.store
  pin : d'.pinValidated = d₀.pinValidated

variable {d₀ d d' : Device} {a : Apdu} {salt : Nat} {body content : List UInt8}

/-! ## The chunks on the device -/

theorem uploading_of_init (h : Accepted P d a salt body d') (h1 : a.p1 = p1Init) : Uploading d d' [] := by
  cases h with
  | init _ => exact ⟨rfl, rfl, rfl, started_valid, List.take_zero ..⟩
  | add hp1 _ => exact absurd (h1.symm.trans hp1) (by decide)
  | last hp1 _ _ _ _ => exact absurd (h1.symm.trans hp1) (by decide)

theorem uploading_append (hu : Uploading d₀ d content) (hfits : d.upload.Fits P a.data) :
    Uploading d₀ { d with upload := d.upload.append P a.data } (content ++ a.data) := by
  obtain ⟨hvalid, hlen, -⟩ := txAppend_valid P hu.valid a.data
  refine ⟨hu.store, hu.pin, hlen.trans hu.capacity, hvalid, ?_⟩
  rw [← hu.content]
  exact content_txAppend P hu.valid hfits

theorem uploading_of_add (hu : Uploading d₀ d content) (h : Accepted P d a salt body d') (h1 : a.p1 = p1Add) :
    Uploading d₀ d' (content ++ a.data) := by
  cases h with
  | init hp1 => exact absurd (h1.symm.trans hp1) (by decide)
  | add _ hfits =>
    obtain ⟨hstore, hpin, hcap, hvalid, hcontent⟩ := uploading_append P hu hfits
    exact ⟨hstore, hpin, hcap, hvalid, hcontent⟩
  | last hp1 _ _ _ _ => exact absurd (h1.symm.trans hp1) (by decide)

theorem signed_of_last (hu : Uploading d₀ d content) (h : Accepted P d a salt body d') (h1 : a.p1 = p1Last) :
    ∃ sig, Signed P d₀ d d' a (content ++ a.data) body salt sig := by
  cases h with
  | init hp1 => exact absurd (h1.symm.trans hp1) (by decide)
  | add hp1 _ => exact absurd (h1.symm.trans hp1) (by decide)
  | @last _ _ u sig _ hcall hfits hparse hs =>
    obtain ⟨-, -, hcap, hvalid, hcontent⟩ := uploading_append P hu hfits
    rw [hu.store] at hs
    exact ⟨sig, ⟨_, u, hcall, hcontent, hvalid, hcap, hparse, hs⟩, congrArg (cryptoStoreSignature sig) hu.store, hu.pin⟩

/-! ## The digest -/

/-- The transaction in a buffer that was parsed is the one whose message fills it, and the digest signed is its deep hash. -/
theorem digest_of_message {H : List UInt8 → ByteArr 48} (hH : ∀ x, P.sha384 x = .ok (H x)) {tx : TxFields} {u u' : Upload}
    {store s : CryptoStore} {expert : Bool} {digest : List UInt8} {sig : ByteArr 512} (hvalid : u.buffering.Valid)
    (hlen : u.buffering.data.length < 65536) (hcontent : u.buffering.content = tx.message)
    (hparse : (txParse P store expert).run u = .ok () u') (hs : Signs P u' s salt digest sig) :
    tx.Acceptable ∧ digest = (deepHash H tx.tree).1 := by
  have hpos := hvalid.pos_le
  have hmod : u.buffering.pos % 65536 = u.buffering.pos := Nat.mod_eq_of_lt (by omega)
  rw [run_txParse] at hparse
  split at hparse
  · cases hparse
  rename_i p hp
  split at hparse
  · cases hparse
  cases hparse
  obtain ⟨f, hf, hholds, hv, hb, hmsg⟩ := parserParse_ok hpos hp
  -- the message consumed opens the content of the buffer, which is a message
  have hin := hv.inside
  rw [hb, hmod] at hin
  have hcut : tx.message = f.message ++ (u.buffering.data.take u.buffering.pos).drop p.c.offset := by
    rw [← hcontent, ← hmsg, Buffering.content]
    have := List.take_append_drop p.c.offset (u.buffering.data.take u.buffering.pos)
    rwa [List.take_take, Nat.min_eq_left hin, eq_comm] at this
  have hshort : (tx.message ++ []).length < 65536 := by
    rw [List.append_nil, ← hcontent, Buffering.content, List.length_take_of_le hpos]
    omega
  obtain ⟨rfl, -⟩ := message_append_inj hshort ((List.append_nil _).trans hcut)
  refine ⟨hf, ?_⟩
  have hsha : P.sha384 = totalSha384 H := funext hH
  have hdigest := parserGetDigest_of_holds H (Nat.mod_lt _ (by decide)) hholds hf.tags (Nat.le_refl sha384DigestLen)
  have hhashed := hs.hashed
  rw [hsha] at hhashed
  have heq := hhashed.symm.trans hdigest
  rw [Nat.sub_self, List.replicate_zero, List.append_nil] at heq
  exact Except.ok.inj heq

end

/-! ## One request -/

section

variable {P : Platform} {τ : Type} {T : Transport τ} {device : τ → Device}

/-- A request settled with an answer: the client has a result with its status word, made of the answer when the request lists
the status word. -/
theorem run_request {f : Response → ChunkResult} (hf : ∀ response, (f response).returnCode = .number (returnCodeOf response))
    {w : Wire τ} {request : Request} {response : Response} (h : (T w.transport request).2 = outcomeOf request response) :
    ∃ result, (thenElse (send T request) (fun response => pure (f response)) processErrorResponse).run w =
        .ok result ⟨(T w.transport request).1, w.sent ++ [request]⟩ ∧
      result.returnCode = .number (returnCodeOf response) ∧
      (returnCodeOf response ∈ request.statusList → result = f response) := by
  have hsend := run_send T request w
  rw [h, outcomeOf] at hsend
  by_cases hin : returnCodeOf response ∈ request.statusList
  · rw [if_pos hin] at hsend
    exact ⟨f response, run_thenElse_of_ok hsend _ _, hf response, fun _ => rfl⟩
  · rw [if_neg hin] at hsend
    exact ⟨_, run_thenElse_of_error hsend _ _, rfl, fun hc => absurd hc hin⟩

variable (hT : Delivers P T device)
include hT

/-- A chunk sent: the client has a result, a success only if the device accepted the chunk, and for an `INIT` it did. -/
theorem run_signSendChunk_delivered (chunkIdx chunkNum : Nat) {chunk : List UInt8} (hlen : chunk.length ≤ 255) {w : Wire τ}
    (hready : (device w.transport).store.deviceInitialized = true) (hpin : (device w.transport).pinValidated = true) :
    ∃ result salt body t, (signSendChunk T chunkIdx chunkNum chunk).run w =
        .ok result ⟨t, w.sent ++ [chunkRequest chunkIdx chunkNum chunk]⟩ ∧
      t = (T w.transport (chunkRequest chunkIdx chunkNum chunk)).1 ∧
      (result.returnCode = ReturnCode.noError ∨ payloadType chunkIdx chunkNum = Common.payloadInit →
        Accepted P (device w.transport) ((chunkRequest chunkIdx chunkNum chunk).apdu hlen) salt body (device t) ∧
        result.output = if 0 < body.length then some ((body ++ swBytes apduCodeOk).take 48) else none) := by
  obtain ⟨salt, hdev, hout⟩ := hT w.transport (chunkRequest chunkIdx chunkNum chunk) hlen
  have hr : Reaches (device w.transport) ((chunkRequest chunkIdx chunkNum chunk).apdu hlen) insSign :=
    Request.reaches hlen rfl hready hpin
  obtain ⟨body, sw, ho, hsw, hacc, hinit⟩ := exchange_chunk P salt hr rfl
  obtain ⟨result, hrun, hcode, hres⟩ := run_request (f := chunkAnswered) (fun _ => rfl) (hout body sw ho)
  rw [returnCodeOf_answer body hsw] at hcode hres
  refine ⟨result, salt, body, _, hrun, rfl, ?_⟩
  intro h
  have hok : sw = apduCodeOk := by
    rcases h with h | h
    · exact ReturnCode.number.inj (hcode.symm.trans h)
    · exact hinit.resolve_right fun hne => hne h
  subst hok
  rw [hdev]
  refine ⟨hacc rfl, ?_⟩
  rw [hres List.mem_cons_self, chunkAnswered, answer]
  simp only [List.length_append, show (swBytes apduCodeOk).length = 2 from rfl]
  exact if_congr (by omega) rfl rfl

/-! ## The loop over the chunks -/

/-- The loop after the first chunk: when its result is a success, all chunks were sent and appended, and the last one was parsed
and signed. -/
theorem sendChunks_ok {d₀ : Device} (hready : d₀.store.deviceInitialized = true) (hpin : d₀.pinValidated = true)
    (chunkNum : Nat) : ∀ (chunks : List (List UInt8)) (i : Nat) (content : List UInt8) (result r : ChunkResult)
      (w w' : Wire τ), chunks ≠ [] → i + chunks.length = chunkNum → 0 < i → (∀ c ∈ chunks, c.length ≤ 255) →
      Uploading d₀ (device w.transport) content → (sendChunks T chunkNum i chunks result).run w = .ok r w' →
      r.returnCode = ReturnCode.noError →
      ∃ earlier last a digest salt sig, requestsFrom chunkNum i chunks = earlier ++ [last] ∧ a.1 = last.bytes ∧
        w'.sent = w.sent ++ requestsFrom chunkNum i chunks ∧ r.output = some digest ∧
        Signed P d₀ (device (after T w.transport earlier)) (device w'.transport) a (content ++ chunks.flatten) digest salt
          sig := by
  intro chunks
  induction chunks with
  | nil => intro i content result r w w' hne; exact absurd rfl hne
  | cons chunk chunks ih =>
    intro i content result r w w' _ hnum hi hlen hu hrun hr
    have hready' : (device w.transport).store.deviceInitialized = true := by rw [hu.store]; exact hready
    have hpin' : (device w.transport).pinValidated = true := by rw [hu.pin]; exact hpin
    have hl : chunk.length ≤ 255 := hlen chunk List.mem_cons_self
    obtain ⟨result', salt, body, t, hchunk, ht, hacc⟩ :=
      run_signSendChunk_delivered hT (1 + i) chunkNum hl hready' hpin'
    rw [sendChunks, run_bind_of_ok hchunk] at hrun
    by_cases hno : result'.returnCode ≠ ReturnCode.noError
    · rw [if_pos hno] at hrun
      cases hrun
      exact absurd hr hno
    rw [if_neg hno] at hrun
    obtain ⟨hacc, hout⟩ := hacc (Or.inl (not_not.1 hno))
    rw [List.length_cons] at hnum
    by_cases hnil : chunks = []
    · -- the last chunk
      subst hnil
      have h1 : payloadType (1 + i) chunkNum = p1Last := by
        unfold payloadType
        rw [if_pos (by rw [← hnum, List.length_nil]; omega)]
        rfl
      obtain ⟨sig, hsigned⟩ := signed_of_last P hu hacc h1
      have hbody : body.length = 48 := by
        obtain ⟨u, u', -, -, -, -, -, hs⟩ := hsigned.parsed
        exact length_parserGetDigest P.sha384 hs.hashed
      cases hrun
      refine ⟨[], chunkRequest (1 + i) chunkNum chunk, (chunkRequest (1 + i) chunkNum chunk).apdu hl, body, salt, sig, rfl, rfl,
        rfl, ?_, ?_⟩
      · rw [hout, if_pos (by omega), ← hbody, List.take_left]
      · rw [List.flatten_cons, List.flatten_nil, List.append_nil]
        exact hsigned
    · have hpos := List.length_pos_iff.2 hnil
      have h1 : payloadType (1 + i) chunkNum = p1Add := by
        unfold payloadType
        rw [if_neg (by omega), if_neg (by omega)]
        rfl
      obtain ⟨earlier, last, a, digest, salt', sig, hreq, ha, hsent, houtput, hsigned⟩ :=
        ih (i + 1) (content ++ chunk) result' r ⟨t, w.sent ++ [chunkRequest (1 + i) chunkNum chunk]⟩ w' hnil (by omega)
          (Nat.succ_pos i) (fun c hc => hlen c (List.mem_cons_of_mem _ hc)) (uploading_of_add P hu hacc h1) hrun hr
      refine ⟨chunkRequest (1 + i) chunkNum chunk :: earlier, last, a, digest, salt', sig, ?_, ha, ?_, houtput, ?_⟩
      · rw [requestsFrom, hreq, List.cons_append]
      · rw [hsent, requestsFrom, List.append_assoc, List.singleton_append]
      · rw [List.flatten_cons, ← List.append_assoc, after, List.foldl_cons, ← ht]
        exact hsigned

/-- A success of `signGetDigest`: all chunks were sent, and the last one was parsed, with the encoded transaction in the buffer,
and signed. -/
theorem signGetDigest_ok {tx : TxFields} {w w' : Wire τ} {r : DigestResult}
    (hready : (device w.transport).store.deviceInitialized = true) (hpin : (device w.transport).pinValidated = true)
    (hrun : (signGetDigest T tx).run w = .ok r w') (hr : r.returnCode = ReturnCode.noError) :
    ∃ earlier last a digest salt sig, chunkRequests tx = earlier ++ [last] ∧ a.1 = last.bytes ∧
      w'.sent = w.sent ++ chunkRequests tx ∧ r.digest = some digest ∧
      Signed P (device w.transport) (device (after T w.transport earlier)) (device w'.transport) a (encodeTx tx) digest salt
        sig := by
  have hne : sliceChunks (encodeTx tx) ≠ [] := sliceChunks_ne_nil (encodeTx_ne_nil tx)
  have hnum : (prepareChunks tx).length = 1 + (sliceChunks (encodeTx tx)).length := Nat.add_comm _ _
  have hfit : ∀ c ∈ prepareChunks tx, c.length ≤ 255 := fun c hc => Nat.le_trans (length_chunk_le hc) (by decide)
  have hpos := List.length_pos_iff.2 hne
  have htype : payloadType 1 (prepareChunks tx).length = Common.payloadInit := by
    unfold payloadType
    rw [if_neg (by omega), if_pos rfl]
  have hl := hfit (List.replicate 20 0) List.mem_cons_self
  obtain ⟨result, salt, body, t, hchunk, ht, hacc⟩ :=
    run_signSendChunk_delivered hT 1 (prepareChunks tx).length hl hready hpin
  obtain ⟨hacc, -⟩ := hacc (Or.inr htype)
  have hstart : Uploading (device w.transport) (device t) [] := uploading_of_init P hacc htype
  unfold signGetDigest at hrun
  rw [run_thenElse_of_ok (by exact hchunk)] at hrun
  obtain ⟨result', w₁, hloop, hres⟩ := run_bind_eq_ok.1 hrun
  cases hres
  obtain ⟨earlier, last, a, digest, salt', sig, hreq, ha, hsent, houtput, hsigned⟩ :=
    sendChunks_ok hT hready hpin _ _ 1 [] _ _ _ _ hne hnum.symm Nat.one_pos
      (fun c hc => hfit c (List.mem_cons_of_mem _ hc)) hstart hloop hr
  rw [List.nil_append, flatten_sliceChunks] at hsigned
  have hall : chunkRequests tx = chunkRequest 1 (prepareChunks tx).length (List.replicate 20 0) :: (earlier ++ [last]) := by
    rw [← hreq]
    rfl
  refine ⟨chunkRequest 1 (prepareChunks tx).length (List.replicate 20 0) :: earlier, last, a, digest, salt', sig, hall, ha, ?_,
    houtput, ?_⟩
  · rw [hsent, hall, hreq, List.append_assoc, List.singleton_append]
  · rw [after, List.foldl_cons, ← ht]
    exact hsigned

/-! ## The signature -/

/-- A half of the signature, while one waits. -/
theorem run_getSignaturePart_delivered {partnum : Nat} (hpart : partnum ≤ 1) {w : Wire τ}
    (hready : (device w.transport).store.deviceInitialized = true) (hpin : (device w.transport).pinValidated = true)
    (hset : (device w.transport).store.signatureSet = 1) :
    ∃ result t, (getSignaturePart T partnum).run w = .ok result ⟨t, w.sent ++ [signatureRequest partnum]⟩ ∧
      result.returnCode = ReturnCode.noError ∧
      result.output = some (slice ((device w.transport).store.nCryptoSig (device w.transport).store.slotInUse).1
        (partnum * rsaModulusHalve) rsaModulusHalve) ∧
      (device t).pinValidated = (device w.transport).pinValidated ∧
      (partnum = 0 → (device t).store = (device w.transport).store) := by
  have hl : (signatureRequest partnum).data.length ≤ 255 := Nat.zero_le _
  obtain ⟨salt, hdev, hout⟩ := hT w.transport (signatureRequest partnum) hl
  have hr : Reaches (device w.transport) ((signatureRequest partnum).apdu hl) insGetSig :=
    Request.reaches hl rfl hready hpin
  have hindex : ((signatureRequest partnum).apdu hl).p2.toNat = partnum := by
    rcases Nat.le_one_iff_eq_zero_or_eq_one.1 hpart with rfl | rfl <;> rfl
  obtain ⟨io, hex⟩ := exchange_signature P salt hr rfl hset (by omega)
  rw [hindex] at hex
  rw [hex] at hdev hout
  obtain ⟨result, hrun, hcode, hres⟩ := run_request (f := processGetRSAResponse) (fun _ => rfl) (hout _ _ rfl)
  rw [returnCodeOf_answer _ (by decide)] at hcode hres
  refine ⟨result, _, hrun, hcode, ?_, ?_, ?_⟩
  · have hhalf := length_half hpart ((device w.transport).store.nCryptoSig (device w.transport).store.slotInUse)
    rw [hres List.mem_cons_self, processGetRSAResponse, answer, List.take_left' hhalf]
  · rw [hdev]
  · intro h0
    rw [hdev, if_neg (by omega)]

end

end EndToEndAux

open EndToEndAux

/-- For every transaction, and every transport that delivers every APDU and every answer to and from a device that is
initialised, unlocked and has a transaction buffer of at most 16384 bytes, while the user approves: if `sign` resolves to
0x9000, then
1. it sent the chunks of the transaction in order and asked for the two halves of the signature;
2. the transaction buffer at the `LAST` chunk was exactly the encoded transaction, which is one the parser is meant for;
3. the hash it resolves to is the deep hash of the transaction, and the signature is the two halves, in order, of the RSA
   signature of the SHA-256 of that hash with the key of the device. -/
theorem sign_end_to_end (P : Platform) {τ : Type} (T : Transport τ) (device : τ → Device) (hT : Delivers P T device)
    (H : List UInt8 → ByteArr 48) (hH : ∀ x, P.sha384 x = .ok (H x)) (t : τ)
    (hready : (device t).store.deviceInitialized = true) (hpin : (device t).pinValidated = true)
    (hbuffer : (device t).upload.buffering.data.length ≤ 16384) (tx : TxFields) (r : SignResult) (w : Wire τ)
    (hrun : (sign T tx).run ⟨t, []⟩ = .ok r w) (hr : r.returnCode = ReturnCode.noError) :
    w.sent = chunkRequests tx ++ [signatureRequest 0, signatureRequest 1] ∧
    (∃ earlier last a u, chunkRequests tx = earlier ++ [last] ∧ a.1 = last.bytes ∧
      ParseCall P (device (after T t earlier)) a u ∧ u.buffering.content = encodeTx tx ∧ tx.Acceptable) ∧
    r.deephash = some (deepHash H tx.tree).1 ∧
    ∃ salt sig, P.rsaSign (device t).store.slot.rsaPriv salt (P.sha256 (deepHash H tx.tree).1) = some sig ∧
      r.signature = some (slice sig.1 0 256 ++ slice sig.1 256 256) := by
  unfold sign at hrun
  obtain ⟨req1, w₁, h1, hrun⟩ := run_bind_eq_ok.1 hrun
  by_cases hno : req1.returnCode ≠ ReturnCode.noError
  · rw [if_pos hno] at hrun
    cases hrun
    exact absurd hr hno
  rw [if_neg hno] at hrun
  obtain ⟨earlier, last, a, digest, salt, sig, hreq, ha, hsent, hdigest, hsigned⟩ :=
    signGetDigest_ok hT hready hpin h1 (not_not.1 hno)
  obtain ⟨u, u', hcall, hcontent, hvalid, hcap, hparse, hs⟩ := hsigned.parsed
  have hsmall : u.buffering.data.length < 65536 := by
    rw [hcap]
    exact Nat.lt_of_le_of_lt hbuffer (by decide)
  obtain ⟨hacceptable, rfl⟩ := digest_of_message P hH hvalid hsmall (by rw [hcontent, encodeTx_eq_message]) hparse hs
  -- the halves of the signature that the approval left
  have hready₁ : (device w₁.transport).store.deviceInitialized = true := by
    rw [hsigned.store]
    exact hready
  have hset₁ : (device w₁.transport).store.signatureSet = 1 := by
    rw [hsigned.store]
    rfl
  have hsig : (device w₁.transport).store.nCryptoSig (device w₁.transport).store.slotInUse = sig := by
    rw [hsigned.store, cryptoStoreSignature]
    exact Function.update_self ..
  obtain ⟨req2, t₂, h2, hcode2, hout2, hpin2, hstore2⟩ :=
    run_getSignaturePart_delivered hT (Nat.zero_le 1) hready₁ (hsigned.pin.trans hpin) hset₁
  have hstore2 := hstore2 rfl
  rw [run_bind_of_ok h2, if_neg (not_not.2 hcode2)] at hrun
  obtain ⟨req3, t₃, h3, hcode3, hout3, -, -⟩ :=
    run_getSignaturePart_delivered hT (Nat.le_refl 1) (w := ⟨t₂, w₁.sent ++ [signatureRequest 0]⟩)
      (by rw [hstore2]; exact hready₁) (by rw [hpin2]; exact hsigned.pin.trans hpin) (by rw [hstore2]; exact hset₁)
  rw [hstore2] at hout3
  rw [run_bind_of_ok h3, if_neg (not_not.2 hcode3), hout2, hout3] at hrun
  have hsignature := congrArg (fun sig : ByteArr 512 => some (slice sig.1 0 256 ++ slice sig.1 256 256)) hsig
  cases hrun
  refine ⟨?_, ⟨earlier, last, a, u, hreq, ha, hcall, hcontent, hacceptable⟩, hdigest, salt, sig, hs.signed, ?_⟩
  · rw [hsent]
    simp
  · exact hsignature

/-- A transaction signed over a cable. -/
theorem sign_end_to_end_cable :
    ∃ r w, (sign (cable Demo.platform 0) Demo.tx).run ⟨Demo.device 1000, []⟩ = .ok r w ∧
      r.returnCode = ReturnCode.noError ∧ r.deephash = some (deepHash (ByteArr.ofList 48) Demo.tx.tree).1 := by
  have hsuccess : (returned ((sign (cable Demo.platform 0) Demo.tx).run ⟨Demo.device 1000, []⟩)).map SignResult.returnCode =
      some ReturnCode.noError := by decide +kernel
  obtain ⟨r, w, hrun, hr⟩ := exists_ok_of_returned hsuccess
  have hbuffer : (Demo.device 1000).upload.buffering.data.length ≤ 16384 := by
    rw [Demo.device, List.length_replicate]
    decide
  exact ⟨r, w, hrun, hr, (sign_end_to_end Demo.platform _ id (delivers_cable Demo.platform 0) (ByteArr.ofList 48)
    (fun _ => rfl) (Demo.device 1000) rfl rfl hbuffer Demo.tx r w hrun hr).2.2.1⟩

end LedgerArweave
