import LedgerArweave.Theorems.EndToEnd
import LedgerArweave.Theorems.Validation

/-!
# When a signing succeeds

A signing over a transport that delivers always resolves, and its code is the one of success for exactly the transactions the
device has room for and can show: no state an earlier upload, review or signature left behind makes it fail. Each stage of the
signing is settled both ways, by what it leaves when it goes on and by why it does not.
-/

namespace LedgerArweave

open Lib

/-- A message the device accepts: it opens with a transaction of the key in use that the current mode can show. -/
def PassesReview (P : Platform) (store : CryptoStore) (expert : Bool) (content : List UInt8) : Prop :=
  ∃ (f : TxFields) (rest : List UInt8), f.Acceptable ∧ content = f.message ++ rest ∧ f.ShownNormally P store ∧
    (expert = true → f.ShownInExpert)

/-- The platform answers the calls of a signing: hashes and signatures are computed, and a chunk there is room for is
appended. -/
structure AnswersCalls (P : Platform) (H : List UInt8 → ByteArr 48) (store : CryptoStore) : Prop where
  hash : ∀ x, P.sha384 x = .ok (H x)
  sign : ∀ salt digest, P.rsaSign store.slot.rsaPriv salt digest ≠ none
  append : ∀ size pos c, c.length ≤ size - pos → P.appended size pos c = c.length

namespace SigningAux

open EndToEndAux

section

variable {P : Platform} {store : CryptoStore} {expert : Bool} {u : Upload}

/-! ## The last chunk -/

/-- `tx_parse` succeeds on the messages the device accepts, whatever was parsed before. -/
theorem txParse_ok_iff (hvalid : u.buffering.Valid) (hlen : u.buffering.data.length < 65536) :
    (∃ u', (txParse P store expert).run u = .ok () u') ↔ PassesReview P store expert u.buffering.content := by
  have hpos := hvalid.pos_le
  have hmod : u.buffering.pos % 65536 = u.buffering.pos := Nat.mod_eq_of_lt (by omega)
  rw [run_txParse]
  constructor
  · rintro ⟨u', hrun⟩
    split at hrun
    · cases hrun
    rename_i p hp
    split at hrun
    · cases hrun
    rename_i hpass
    obtain ⟨f, hf, hholds, hv, hb, hmsg⟩ := parserParse_ok hpos hp
    rw [ValidationAux.validate_iff hpos hp, hholds.fields_eq] at hpass
    have hin := hv.inside
    rw [hb, hmod] at hin
    have hcut := List.take_append_drop p.c.offset (u.buffering.data.take u.buffering.pos)
    rw [List.take_take, Nat.min_eq_left hin, hmsg] at hcut
    exact ⟨f, _, hf, hcut.symm, hpass⟩
  · rintro ⟨f, rest, hf, hcontent, hpass⟩
    obtain ⟨p, hp, hholds⟩ := parserParse_of_message hpos hf (t := rest) (by rw [hmod]; exact hcontent) u.parser
    have hok : parserValidate P u.buffering.data store expert p.v = .ok () := by
      rw [ValidationAux.validate_iff hpos hp, hholds.fields_eq]
      exact hpass
    rw [hp]
    simp only [hok]
    exact ⟨_, rfl⟩

/-- What was parsed has a digest when the hash calls succeed. -/
theorem hashed_of_txParse {H : List UInt8 → ByteArr 48} (hH : ∀ x, P.sha384 x = .ok (H x)) (hvalid : u.buffering.Valid)
    {u' : Upload} (h : (txParse P store expert).run u = .ok () u') :
    ∃ digest, parserGetDigest P.sha384 u'.buffering.data u'.parserTxObj sha384DigestLen = .ok digest := by
  rw [run_txParse] at h
  split at h
  · cases h
  rename_i p hp
  split at h
  · cases h
  cases h
  obtain ⟨f, hf, hholds, -⟩ := parserParse_ok hvalid.pos_le hp
  have hsha : P.sha384 = totalSha384 H := funext hH
  rw [hsha]
  exact ⟨_, parserGetDigest_of_holds H (Nat.mod_lt _ (by decide)) hholds hf.tags (Nat.le_refl _)⟩

end

/-! ## A chunk on the device -/

/-- A device that collects an upload begun on `d₀`: the flag is up, and the buffer has its full size. -/
structure Receiving (d₀ d : Device) (content : List UInt8) : Prop extends Uploading d₀ d content where
  expert : d.expert = d₀.expert
  started : d.upload.txInitialized = true
  size : d.upload.buffering.size = d₀.upload.buffering.data.length

section

variable {P : Platform} {H : List UInt8 → ByteArr 48} {d₀ d : Device} {a : Apdu} {salt : Nat} {content : List UInt8}

/-- A chunk fits when the buffer has room for what was collected and the chunk. -/
theorem fits_iff (hP : AnswersCalls P H d₀.store) (hr : Receiving d₀ d content) (c : List UInt8) :
    d.upload.Fits P c ↔ (content ++ c).length ≤ d₀.upload.buffering.data.length := by
  have hpos : content.length = d.upload.buffering.pos := by
    rw [← hr.content, Buffering.content, List.length_take_of_le hr.valid.pos_le]
  have hle := hr.valid.pos_le
  have hcap := hr.capacity
  have hroom := P.appended_le_room d.upload.buffering.size d.upload.buffering.pos c
  rw [Upload.Fits, List.length_append, hpos]
  rw [hr.size] at hroom ⊢
  constructor
  · intro hfits
    rw [hfits] at hroom
    omega
  · intro hlen
    exact hP.append _ _ c (by omega)

/-- An `INIT` starts an upload, whatever was going on. -/
theorem step_init (hr : Reaches d a insSign) (h2 : a.p2 = 0) (h1 : a.p1 = p1Init) :
    ∃ d', d.step P (.apdu a) = (d', some (swBytes apduCodeOk)) ∧ Receiving d d' [] := by
  obtain ⟨io, u, r, o, heff, hstep⟩ := step_of_reaches_sign P hr
  rw [hstep]
  cases heff with
  | init => exact ⟨_, rfl, ⟨⟨rfl, rfl, rfl, started_valid, List.take_zero ..⟩, rfl, rfl, rfl⟩⟩
  | badP2 hp2 => exact absurd h2 hp2
  | add _ hp1 | notStarted _ hp1 | parseError _ hp1 | review _ hp1 => exact absurd (h1.symm.trans hp1) (by decide)
  | full _ hp1 => exact hp1.elim (fun h => absurd (h1.symm.trans h) (by decide)) fun h => absurd (h1.symm.trans h.1) (by decide)
  | badP1 _ hp1 => exact absurd h1 hp1.1

theorem exchange_init (salt : Nat) (hr : Reaches d a insSign) (h2 : a.p2 = 0) (h1 : a.p1 = p1Init) :
    ∃ body, (exchange P salt d a).2 = some (body ++ swBytes apduCodeOk) ∧ Receiving d (exchange P salt d a).1 [] := by
  obtain ⟨d', hstep, hu⟩ := step_init (P := P) hr h2 h1
  rw [exchange, hstep]
  exact ⟨[], rfl, hu⟩

/-- What becomes of an upload with this content: it is answered with success and goes on, or there is no room for it. -/
def AddSettled (d₀ : Device) (content : List UInt8) (sw : StatusWord) (d : Device) : Prop :=
  (sw = apduCodeOk ∧ Receiving d₀ d content) ∨
    (sw = apduCodeOutputBufferTooSmall ∧ ¬content.length ≤ d₀.upload.buffering.data.length ∧ d.store = d₀.store)

theorem AddSettled.sw_lt {sw : StatusWord} (h : AddSettled d₀ content sw d) : sw < 0x10000 := by
  rcases h with ⟨rfl, -⟩ | ⟨rfl, -⟩ <;> decide

/-- An `ADD` is appended when there is room for it, and refused otherwise. -/
theorem step_add (hP : AnswersCalls P H d₀.store) (hu : Receiving d₀ d content) (hr : Reaches d a insSign) (h2 : a.p2 = 0)
    (h1 : a.p1 = p1Add) :
    ∃ d' sw, d.step P (.apdu a) = (d', some (swBytes sw)) ∧ AddSettled d₀ (content ++ a.data) sw d' := by
  obtain ⟨io, u, r, o, heff, hstep⟩ := step_of_reaches_sign P hr
  rw [hstep]
  cases heff with
  | badP2 hp2 => exact absurd h2 hp2
  | init _ hp1 | notStarted _ hp1 | parseError _ hp1 | review _ hp1 => exact absurd (h1.symm.trans hp1) (by decide)
  | badP1 _ hp1 => exact absurd h1 hp1.2.1
  | add _ _ hfits =>
    obtain ⟨hstore, hpin, hcap, hvalid, hcontent⟩ := uploading_append P hu.toUploading hfits
    exact ⟨_, _, rfl, Or.inl ⟨rfl, ⟨hstore, hpin, hcap, hvalid, hcontent⟩, hu.expert, hu.started, hu.size⟩⟩
  | full _ _ hfits =>
    exact ⟨_, apduCodeOutputBufferTooSmall, rfl, Or.inr ⟨rfl, fun h => hfits ((fits_iff hP hu _).2 h), hu.store⟩⟩

theorem exchange_add (hP : AnswersCalls P H d₀.store) (salt : Nat) (hu : Receiving d₀ d content) (hr : Reaches d a insSign)
    (h2 : a.p2 = 0) (h1 : a.p1 = p1Add) :
    ∃ body sw, (exchange P salt d a).2 = some (body ++ swBytes sw) ∧ sw < 0x10000 ∧
      AddSettled d₀ (content ++ a.data) sw (exchange P salt d a).1 := by
  obtain ⟨d', sw, hstep, hsettled⟩ := step_add hP hu hr h2 h1
  rw [exchange, hstep]
  exact ⟨[], sw, rfl, hsettled.sw_lt, hsettled⟩

/-- A signature waits on the device. -/
structure Waiting (d₀ d : Device) (sig : ByteArr 512) : Prop where
  store : d.store = cryptoStoreSignature sig d₀.store
  pin : d.pinValidated = d₀.pinValidated

/-- The device has room for a message and accepts it. -/
def Accepts (P : Platform) (d₀ : Device) (content : List UInt8) : Prop :=
  content.length ≤ d₀.upload.buffering.data.length ∧ PassesReview P d₀.store d₀.expert content

/-- What becomes of a message: it is answered with success and its signature waits, or the device does not accept it. -/
def LastSettled (P : Platform) (d₀ : Device) (content : List UInt8) (sw : StatusWord) (d : Device) : Prop :=
  (sw = apduCodeOk ∧ Accepts P d₀ content ∧ ∃ sig, Waiting d₀ d sig) ∨
    (sw ≠ apduCodeOk ∧ ¬Accepts P d₀ content ∧ d.store = d₀.store)

/-- The globals that `tx_parse` is called on for a message. -/
structure Holding (d₀ : Device) (content : List UInt8) (u : Upload) : Prop where
  valid : u.buffering.Valid
  capacity : u.buffering.data.length = d₀.upload.buffering.data.length
  content : u.buffering.content = content

/-- What the device does with the last chunk of a message: it has no room for it, refuses it, or opens its review. -/
inductive LastStep (P : Platform) (d₀ : Device) (content : List UInt8) (d : Device) : Output → Prop where
  | full (hlong : ¬content.length ≤ d₀.upload.buffering.data.length) (hstore : d.store = d₀.store) :
      LastStep P d₀ content d (some (swBytes apduCodeOutputBufferTooSmall))
  | refused {u u' : Upload} {e : ParserError} (hfits : content.length ≤ d₀.upload.buffering.data.length)
      (hu : Holding d₀ content u) (hparse : (txParse P d₀.store d₀.expert).run u = .error e u') (hstore : d.store = d₀.store) :
      LastStep P d₀ content d (some (ascii (parserGetErrorDescription e) ++ swBytes apduCodeDataInvalid))
  | review {u : Upload} (hfits : content.length ≤ d₀.upload.buffering.data.length) (hu : Holding d₀ content u)
      (hparse : (txParse P d₀.store d₀.expert).run u = .ok () d.upload) (hreview : d.review = some .txn)
      (hstore : d.store = d₀.store) (hpin : d.pinValidated = d₀.pinValidated) : LastStep P d₀ content d none

theorem step_last (hP : AnswersCalls P H d₀.store) (hu : Receiving d₀ d content) (hr : Reaches d a insSign) (h2 : a.p2 = 0)
    (h1 : a.p1 = p1Last) : LastStep P d₀ (content ++ a.data) (d.step P (.apdu a)).1 (d.step P (.apdu a)).2 := by
  obtain ⟨io, u, r, o, heff, hstep⟩ := step_of_reaches_sign P hr
  have hholding : d.upload.Fits P a.data → Holding d₀ (content ++ a.data) (d.upload.append P a.data) := by
    intro hfits
    obtain ⟨-, -, hcap, hvalid, hcontent⟩ := uploading_append P hu.toUploading hfits
    exact ⟨hvalid, hcap, hcontent⟩
  rw [hstep]
  cases heff with
  | badP2 hp2 => exact absurd h2 hp2
  | init _ hp1 | add _ hp1 => exact absurd (h1.symm.trans hp1) (by decide)
  | badP1 _ hp1 => exact absurd h1 hp1.2.2
  | notStarted _ _ hi => exact absurd (hu.started.symm.trans hi) (by decide)
  | full _ _ hfits => exact .full (fun h => hfits ((fits_iff hP hu _).2 h)) hu.store
  | parseError _ _ _ hfits hrun =>
    rw [hu.store, hu.expert] at hrun
    exact .refused ((fits_iff hP hu _).1 hfits) (hholding hfits) hrun hu.store
  | review _ _ _ hfits hrun =>
    rw [hu.store, hu.expert] at hrun
    exact .review ((fits_iff hP hu _).1 hfits) (hholding hfits) hrun rfl hu.store hu.pin

/-- The messages that pass the review are those that `tx_parse` succeeds on. -/
theorem Holding.passes_iff (hbuffer : d₀.upload.buffering.data.length ≤ 16384) {u : Upload} (hu : Holding d₀ content u) :
    (∃ u', (txParse P d₀.store d₀.expert).run u = .ok () u') ↔ PassesReview P d₀.store d₀.expert content := by
  rw [txParse_ok_iff hu.valid (by rw [hu.capacity]; omega), hu.content]

/-- A key that answers signs every message that passes the review: the owner of the message is the key in use. -/
theorem signs_of_review (hP : AnswersCalls P H d₀.store) (hbuffer : d₀.upload.buffering.data.length ≤ 16384) (salt : Nat)
    {u u' : Upload} (hu : Holding d₀ content u) (hparse : (txParse P d₀.store d₀.expert).run u = .ok () u') :
    ∃ digest sig, Signs P u' d₀.store salt digest sig := by
  obtain ⟨f, -, -, -, hshown, -⟩ := (hu.passes_iff hbuffer).1 ⟨_, hparse⟩
  obtain ⟨digest, hdigest⟩ := hashed_of_txParse hP.hash hu.valid hparse
  obtain ⟨sig, hsig⟩ := Option.ne_none_iff_exists'.1 (hP.sign salt (P.sha256 digest))
  exact ⟨digest, sig, hshown.owner.1, hdigest, hsig⟩

/-- An approval of the review of a message signs it. -/
theorem approve_review (hP : AnswersCalls P H d₀.store) (hbuffer : d₀.upload.buffering.data.length ≤ 16384) (salt : Nat)
    {u : Upload} (hu : Holding d₀ content u) (hparse : (txParse P d₀.store d₀.expert).run u = .ok () d.upload)
    (hreview : d.review = some .txn) (hstore : d.store = d₀.store) (hpin : d.pinValidated = d₀.pinValidated) :
    ∃ digest sig, Signs P d.upload d₀.store salt digest sig ∧
      (approve P salt d).2 = some (digest ++ swBytes apduCodeOk) ∧ Waiting d₀ (approve P salt d).1 sig := by
  have he := approve_effect P d salt
  generalize (approve P salt d).1 = d' at he ⊢
  generalize (approve P salt d).2 = o at he ⊢
  cases he with
  | idle hno => exact absurd (hno.symm.trans hreview) nofun
  | address hno => exact absurd (hno.symm.trans hreview) nofun
  | @signed _ digest sig _ hs =>
    rw [hstore] at hs ⊢
    exact ⟨digest, sig, hs, rfl, rfl, hpin⟩
  | failed _ hs =>
    obtain ⟨digest, sig, h⟩ := signs_of_review hP hbuffer salt hu hparse
    exact absurd (hstore ▸ h) (hs digest sig)

/-- A `LAST` is signed when there is room for it and the message passes the review, and refused otherwise. -/
theorem exchange_last (hP : AnswersCalls P H d₀.store) (hbuffer : d₀.upload.buffering.data.length ≤ 16384) (salt : Nat)
    (hu : Receiving d₀ d content) (hr : Reaches d a insSign) (h2 : a.p2 = 0) (h1 : a.p1 = p1Last) :
    ∃ body sw, (exchange P salt d a).2 = some (body ++ swBytes sw) ∧ sw < 0x10000 ∧
      LastSettled P d₀ (content ++ a.data) sw (exchange P salt d a).1 := by
  have hlast := step_last hP hu hr h2 h1
  unfold exchange
  generalize d.step P (.apdu a) = r at hlast ⊢
  obtain ⟨d', o⟩ := r
  cases hlast with
  | full hlong hstore =>
    exact ⟨[], apduCodeOutputBufferTooSmall, rfl, by decide, Or.inr ⟨by decide, fun h => hlong h.1, hstore⟩⟩
  | refused hfits hu hparse hstore =>
    refine ⟨_, apduCodeDataInvalid, rfl, by decide, Or.inr ⟨by decide, fun h => ?_, hstore⟩⟩
    obtain ⟨_, hok⟩ := (hu.passes_iff hbuffer).2 h.2
    rw [hparse] at hok
    cases hok
  | review hfits hu hparse hreview hstore hpin =>
    obtain ⟨digest, sig, -, hout, hwait⟩ := approve_review hP hbuffer salt hu hparse hreview hstore hpin
    exact ⟨digest, apduCodeOk, hout, by decide,
      Or.inl ⟨rfl, ⟨hfits, (hu.passes_iff hbuffer).1 ⟨_, hparse⟩⟩, sig, hwait⟩⟩

end

/-! ## The client -/

section

variable {P : Platform} {H : List UInt8 → ByteArr 48} {τ : Type} {T : Transport τ} {device : τ → Device} {d₀ : Device}
  (hT : Delivers P T device) (hP : AnswersCalls P H d₀.store)

include hT

/-- A chunk sent: the client has a result with the status word of the answer. -/
theorem run_signSendChunk_answered (chunkIdx chunkNum : Nat) {chunk : List UInt8} (hlen : chunk.length ≤ 255) {w : Wire τ}
    {Q : StatusWord → Device → Prop}
    (h : ∀ salt, ∃ body sw,
      (exchange P salt (device w.transport) ((chunkRequest chunkIdx chunkNum chunk).apdu hlen)).2 =
        some (body ++ swBytes sw) ∧ sw < 0x10000 ∧
      Q sw (exchange P salt (device w.transport) ((chunkRequest chunkIdx chunkNum chunk).apdu hlen)).1) :
    ∃ result w' sw, (signSendChunk T chunkIdx chunkNum chunk).run w = .ok result w' ∧ result.returnCode = .number sw ∧
      Q sw (device w'.transport) := by
  obtain ⟨salt, hdev, hout⟩ := hT w.transport (chunkRequest chunkIdx chunkNum chunk) hlen
  obtain ⟨body, sw, ho, hsw, hq⟩ := h salt
  obtain ⟨result, hrun, hcode, -⟩ := run_request (f := chunkAnswered) (fun _ => rfl) (hout body sw ho)
  rw [returnCodeOf_answer body hsw] at hcode
  exact ⟨result, _, sw, hrun, hcode, by rw [hdev]; exact hq⟩

include hP

/-- The loop after the first chunk, both ways: the induction is on the chunks, and `Receiving` carries what was collected. -/
theorem sendChunks_settled (hready : d₀.store.deviceInitialized = true) (hpin : d₀.pinValidated = true)
    (hbuffer : d₀.upload.buffering.data.length ≤ 16384) (chunkNum : Nat) :
    ∀ (chunks : List (List UInt8)) (i : Nat) (content : List UInt8) (result : ChunkResult) (w : Wire τ), chunks ≠ [] →
      i + chunks.length = chunkNum → 0 < i → (∀ c ∈ chunks, c.length ≤ 255) → Receiving d₀ (device w.transport) content →
      ∃ r w', (sendChunks T chunkNum i chunks result).run w = .ok r w' ∧
        ((r.returnCode = ReturnCode.noError ∧ Accepts P d₀ (content ++ chunks.flatten) ∧
            ∃ sig, Waiting d₀ (device w'.transport) sig) ∨
          (r.returnCode ≠ ReturnCode.noError ∧ ¬Accepts P d₀ (content ++ chunks.flatten) ∧
            (device w'.transport).store = d₀.store)) := by
  have hcode : ∀ {r : ChunkResult} {sw : StatusWord}, r.returnCode = .number sw →
      (r.returnCode = ReturnCode.noError ↔ sw = apduCodeOk) := fun h => by
    rw [h]
    exact ⟨ReturnCode.number.inj, congrArg _⟩
  intro chunks
  induction chunks with
  | nil => intro i content result w hne; exact absurd rfl hne
  | cons chunk chunks ih =>
    intro i content result w _ hnum hi hlen hu
    rw [List.length_cons] at hnum
    have hl : chunk.length ≤ 255 := hlen chunk List.mem_cons_self
    have hr : Reaches (device w.transport) ((chunkRequest (1 + i) chunkNum chunk).apdu hl) insSign :=
      Request.reaches hl rfl (by rw [hu.store]; exact hready) (by rw [hu.pin]; exact hpin)
    rw [sendChunks, List.flatten_cons, ← List.append_assoc]
    by_cases hnil : chunks = []
    · -- the last chunk
      subst hnil
      have h1 : payloadType (1 + i) chunkNum = p1Last := by
        unfold payloadType
        rw [if_pos (by rw [← hnum, List.length_nil]; omega)]
        rfl
      obtain ⟨result', w', sw, hrun, hsw, hq⟩ := run_signSendChunk_answered hT (1 + i) chunkNum hl (w := w) fun salt =>
        exchange_last hP hbuffer salt hu hr rfl h1
      rw [List.flatten_nil, List.append_nil]
      refine ⟨result', w', ?_, ?_⟩
      · rw [run_bind_of_ok hrun, run_ite]
        split <;> rfl
      · rcases hq with ⟨hok, hq⟩ | ⟨hno, hq⟩
        · exact Or.inl ⟨(hcode hsw).2 hok, hq⟩
        · exact Or.inr ⟨fun h => hno ((hcode hsw).1 h), hq⟩
    · have hpos := List.length_pos_iff.2 hnil
      have h1 : payloadType (1 + i) chunkNum = p1Add := by
        unfold payloadType
        rw [if_neg (by omega), if_neg (by omega)]
        rfl
      obtain ⟨result', w', sw, hrun, hsw, hq⟩ := run_signSendChunk_answered hT (1 + i) chunkNum hl (w := w) fun salt =>
        exchange_add hP salt hu hr rfl h1
      rw [run_bind_of_ok hrun]
      rcases hq with ⟨hok, hu'⟩ | ⟨hno, hfull, hstore⟩
      · rw [if_neg (not_not.2 ((hcode hsw).2 hok))]
        exact ih (i + 1) (content ++ chunk) result' w' hnil (by omega) (Nat.succ_pos i)
          (fun c hc => hlen c (List.mem_cons_of_mem _ hc)) hu'
      · have hbad : result'.returnCode ≠ ReturnCode.noError := fun h => absurd (hno.symm.trans ((hcode hsw).1 h)) (by decide)
        rw [if_pos hbad]
        refine ⟨result', w', rfl, Or.inr ⟨hbad, fun h => hfull ?_, hstore⟩⟩
        have hlong := h.1
        rw [List.length_append] at hlong
        exact Nat.le_trans (Nat.le_add_right _ _) hlong

/-- All chunks, both ways. -/
theorem signGetDigest_settled (tx : TxFields) {w : Wire τ} (hd : device w.transport = d₀)
    (hready : d₀.store.deviceInitialized = true) (hpin : d₀.pinValidated = true)
    (hbuffer : d₀.upload.buffering.data.length ≤ 16384) :
    ∃ r w', (signGetDigest T tx).run w = .ok r w' ∧
      ((r.returnCode = ReturnCode.noError ∧ Accepts P d₀ (encodeTx tx) ∧ ∃ sig, Waiting d₀ (device w'.transport) sig) ∨
        (r.returnCode ≠ ReturnCode.noError ∧ ¬Accepts P d₀ (encodeTx tx) ∧ (device w'.transport).store = d₀.store)) := by
  have hne : sliceChunks (encodeTx tx) ≠ [] := sliceChunks_ne_nil (encodeTx_ne_nil tx)
  have hnum : (prepareChunks tx).length = 1 + (sliceChunks (encodeTx tx)).length := Nat.add_comm _ _
  have hfit : ∀ c ∈ prepareChunks tx, c.length ≤ 255 := fun c hc => Nat.le_trans (length_chunk_le hc) (by decide)
  have hpos := List.length_pos_iff.2 hne
  have htype : payloadType 1 (prepareChunks tx).length = Common.payloadInit := by
    unfold payloadType
    rw [if_neg (by omega), if_pos rfl]
  have hl := hfit (List.replicate 20 0) List.mem_cons_self
  have hr : Reaches (device w.transport) ((chunkRequest 1 (prepareChunks tx).length (List.replicate 20 0)).apdu hl) insSign :=
    Request.reaches hl rfl (by rw [hd]; exact hready) (by rw [hd]; exact hpin)
  obtain ⟨result, w₁, sw, hchunk, hsw, hstart⟩ := run_signSendChunk_answered hT 1 (prepareChunks tx).length hl
    (Q := fun _ d => Receiving d₀ d []) (w := w) fun salt => by
      obtain ⟨body, ho, hu⟩ := exchange_init salt hr rfl htype
      exact ⟨body, apduCodeOk, ho, by decide, hd ▸ hu⟩
  obtain ⟨r, w', hloop, hsettled⟩ := sendChunks_settled hT hP hready hpin hbuffer (prepareChunks tx).length
    (sliceChunks (encodeTx tx)) 1 [] ⟨none, result.returnCode, result.errorMessage⟩ w₁ hne hnum.symm Nat.one_pos
    (fun c hc => hfit c (List.mem_cons_of_mem _ hc)) hstart
  rw [List.nil_append, flatten_sliceChunks] at hsettled
  refine ⟨⟨r.returnCode, r.errorMessage, r.output⟩, w', ?_, hsettled⟩
  unfold signGetDigest
  rw [run_thenElse_of_ok (by exact hchunk)]
  rw [show (prepareChunks tx).tail = sliceChunks (encodeTx tx) from rfl, run_bind_of_ok hloop]
  rfl

omit hP in
/-- The two halves of a signature that waits. -/
theorem signatureParts_settled {d : Device} {sig : ByteArr 512} {w : Wire τ} (hw : Waiting d (device w.transport) sig)
    (hready : d.store.deviceInitialized = true) (hpin : d.pinValidated = true) :
    ∃ first second bytes₁ bytes₂ w₁ w₂, (getSignaturePart T 0).run w = .ok first w₁ ∧
      (getSignaturePart T 1).run w₁ = .ok second w₂ ∧ first.returnCode = ReturnCode.noError ∧
      second.returnCode = ReturnCode.noError ∧ first.output = some bytes₁ ∧ second.output = some bytes₂ := by
  have hready' : (device w.transport).store.deviceInitialized = true := by
    rw [hw.store]
    exact hready
  have hset : (device w.transport).store.signatureSet = 1 := by
    rw [hw.store]
    rfl
  have hpin' : (device w.transport).pinValidated = true := hw.pin.trans hpin
  obtain ⟨first, t, h1, hcode1, hout1, hpin1, hstore⟩ :=
    run_getSignaturePart_delivered hT (Nat.zero_le 1) hready' hpin' hset
  have hstore := hstore rfl
  obtain ⟨second, t', h2, hcode2, hout2, -, -⟩ :=
    run_getSignaturePart_delivered hT (Nat.le_refl 1) (w := ⟨t, w.sent ++ [signatureRequest 0]⟩)
      (by rw [hstore]; exact hready') (by rw [hpin1]; exact hpin') (by rw [hstore]; exact hset)
  exact ⟨first, second, _, _, _, _, h1, h2, hcode1, hcode2, hout1, hout2⟩

end

/-- The message of a transaction passes when the transaction is one the parser is meant for and the review can show. -/
theorem passesReview_encodeTx_iff {P : Platform} {store : CryptoStore} {expert : Bool} {tx : TxFields}
    (hlen : (encodeTx tx).length < 65536) :
    PassesReview P store expert (encodeTx tx) ↔
      tx.Acceptable ∧ tx.ShownNormally P store ∧ (expert = true → tx.ShownInExpert) := by
  rw [encodeTx_eq_message] at hlen
  constructor
  · rintro ⟨f, rest, hf, hmsg, hshown⟩
    rw [encodeTx_eq_message] at hmsg
    obtain ⟨rfl, -⟩ := message_append_inj (s := []) (by rwa [List.append_nil]) ((List.append_nil _).trans hmsg)
    exact ⟨hf, hshown⟩
  · rintro ⟨hf, hshown⟩
    exact ⟨tx, [], hf, by rw [encodeTx_eq_message, List.append_nil], hshown⟩

/-- The same of a device, which must have room for the message. -/
theorem accepts_encodeTx_iff {P : Platform} {d : Device} {tx : TxFields} (hbuffer : d.upload.buffering.data.length ≤ 16384) :
    Accepts P d (encodeTx tx) ↔
      tx.Acceptable ∧ (encodeTx tx).length ≤ d.upload.buffering.data.length ∧ tx.ShownNormally P d.store ∧
        (d.expert = true → tx.ShownInExpert) := by
  constructor
  · rintro ⟨hlen, hpasses⟩
    obtain ⟨hf, hshown⟩ := (passesReview_encodeTx_iff (by omega)).1 hpasses
    exact ⟨hf, hlen, hshown⟩
  · rintro ⟨hf, hlen, hshown⟩
    exact ⟨hlen, (passesReview_encodeTx_iff (by omega)).2 ⟨hf, hshown⟩⟩

end SigningAux

open SigningAux

/-- Over every transport that delivers every APDU and every answer to and from a device that is initialised and unlocked and has a
transaction buffer of at most 16384 bytes, in any state otherwise, while the user approves and the platform answers: `sign`
resolves, and its code is the one of success exactly when the transaction is one the parser is meant for, fits the transaction
buffer, is of the key in use, and can be shown in the current mode. -/
theorem sign_succeeds_iff (P : Platform) {τ : Type} (T : Transport τ) (device : τ → Device) (hT : Delivers P T device)
    (H : List UInt8 → ByteArr 48) (t : τ) (hP : AnswersCalls P H (device t).store)
    (hready : (device t).store.deviceInitialized = true) (hpin : (device t).pinValidated = true)
    (hbuffer : (device t).upload.buffering.data.length ≤ 16384) (tx : TxFields) :
    ∃ r w, (sign T tx).run ⟨t, []⟩ = .ok r w ∧
      (r.returnCode = ReturnCode.noError ↔
        tx.Acceptable ∧ (encodeTx tx).length ≤ (device t).upload.buffering.data.length ∧
          tx.ShownNormally P (device t).store ∧ ((device t).expert = true → tx.ShownInExpert)) := by
  obtain ⟨req1, w₁, h1, hsettled⟩ := signGetDigest_settled hT hP tx (w := ⟨t, []⟩) rfl hready hpin hbuffer
  rw [← accepts_encodeTx_iff hbuffer]
  unfold sign
  rw [run_bind_of_ok h1]
  rcases hsettled with ⟨hcode, haccepted, sig, hw⟩ | ⟨hcode, hno, -⟩
  · obtain ⟨first, second, bytes₁, bytes₂, w₂, w₃, h2, h3, hcode2, hcode3, hout2, hout3⟩ :=
      signatureParts_settled hT hw hready hpin
    rw [if_neg (not_not.2 hcode), run_bind_of_ok h2, if_neg (not_not.2 hcode2), run_bind_of_ok h3, if_neg (not_not.2 hcode3),
      hout2, hout3]
    exact ⟨_, _, rfl, iff_of_true rfl haccepted⟩
  · rw [if_pos hcode]
    exact ⟨_, _, rfl, iff_of_false hcode hno⟩

/-- The demo platform answers the calls of a signing. -/
theorem answersCalls_demo (store : CryptoStore) : AnswersCalls Demo.platform (ByteArr.ofList 48) store where
  hash _ := rfl
  sign _ _ := Option.some_ne_none _
  append _ _ _ h := if_pos h

/-- The demo transaction, over a cable: it succeeds on a buffer of 1000 bytes, and on one of 500 bytes it does not. -/
theorem sign_succeeds_cable :
    (∃ r w, (sign (cable Demo.platform 0) Demo.tx).run ⟨Demo.device 1000, []⟩ = .ok r w ∧ r.returnCode = ReturnCode.noError) ∧
      ∃ r w, (sign (cable Demo.platform 0) Demo.tx).run ⟨Demo.device 500, []⟩ = .ok r w ∧
        r.returnCode ≠ ReturnCode.noError := by
  have hf : Demo.tx.Acceptable := ⟨rfl, List.length_replicate, by decide⟩
  have hlen : (encodeTx Demo.tx).length = 545 := by
    rw [encodeTx_eq_message, ValidationAux.length_message_demo hf rfl]
    rfl
  have hsize : ∀ k, (Demo.device k).upload.buffering.data.length = k := fun k => List.length_replicate
  constructor
  · obtain ⟨r, w, hrun, hiff⟩ := sign_succeeds_iff Demo.platform _ id (delivers_cable Demo.platform 0) (ByteArr.ofList 48)
      (Demo.device 1000) (answersCalls_demo _) rfl rfl (by rw [id, hsize]; decide) Demo.tx
    refine ⟨r, w, hrun, hiff.2 ⟨hf, by rw [id, hsize, hlen]; decide, ?_, fun hx => absurd hx (by decide)⟩⟩
    exact ValidationAux.shownNormally_demo rfl ValidationAux.digits_demo (by decide) (by decide)
  · obtain ⟨r, w, hrun, hiff⟩ := sign_succeeds_iff Demo.platform _ id (delivers_cable Demo.platform 0) (ByteArr.ofList 48)
      (Demo.device 500) (answersCalls_demo _) rfl rfl (by rw [id, hsize]; decide) Demo.tx
    refine ⟨r, w, hrun, fun h => ?_⟩
    have hroom := (hiff.1 h).2.1
    rw [id, hsize, hlen] at hroom
    exact absurd hroom (by decide)

end LedgerArweave
