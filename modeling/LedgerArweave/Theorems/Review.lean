import LedgerArweave.Session
import LedgerArweave.Parser.Items
import LedgerArweave.Parser.Reparse
import LedgerArweave.Demo

/-!
# What was reviewed is what is signed

The signed content lives in the transaction buffer and in the views `parser_tx_obj` holds into it, and nothing refuses a `SIGN`
command while the user looks at a review. A review stays true to its content as long as no chunk is written to the buffer after
an `INIT`: chunks without a new `INIT` go behind what was parsed, and parsing it again changes nothing.
-/

namespace LedgerArweave

open Lib

section

variable (P : Platform)

/-- A step opens the review of a transaction: the transaction was parsed and validated. -/
def OpensReview (e : Step) : Prop :=
  ∃ a u u', e.input = .apdu a ∧ ParseCall P e.before a u ∧ (txParse P e.before.store e.before.expert).run u = .ok () u'

/-- A step writes bytes of a chunk into the transaction buffer. -/
def WritesChunk (e : Step) : Prop :=
  ∃ c, chunkOf e = some c ∧ 0 < P.appended e.before.upload.buffering.size e.before.upload.buffering.pos c

/-- The last opening of a review and the steps since then. -/
structure Reviewing (pre : List Step) (opening : Step) (since : List Step) : Prop where
  split : ∃ p, pre = p ++ opening :: since
  opens : OpensReview P opening
  last : ∀ x ∈ since, ¬OpensReview P x

/-- Among these steps an `INIT` comes, and after it a chunk is written. -/
def Overwritten (since : List Step) : Prop :=
  ∃ pre i mid w post, since = pre ++ i :: (mid ++ w :: post) ∧ IsInit i ∧ WritesChunk P w

/-- A signing is true to the review it answers: the content is what `parser_validate` accepted at the opening, every item shows
what it showed then, the owner is the modulus of the slot in use, and the digest is the one of that content. -/
structure AsReviewed (opening e : Step) (digest : List UInt8) : Prop where
  validated : parserValidate P opening.after.upload.buffering.data opening.before.store opening.before.expert
    opening.after.upload.parserTxObj = .ok ()
  fields : e.before.upload.fields = opening.after.upload.fields
  shown : ∀ expert idx outKeyLen outValLen pageIdx,
    parserGetItem P e.before.upload.buffering.data expert e.before.upload.parserTxObj idx outKeyLen outValLen pageIdx =
      parserGetItem P opening.after.upload.buffering.data expert opening.after.upload.parserTxObj idx outKeyLen outValLen pageIdx
  owner : cryptoStoreIsInitialized e.before.store = true ∧ opening.after.upload.fields.owner = e.before.store.slot.rsaPub.n.1
  digest : parserGetDigest P.sha384 opening.after.upload.buffering.data opening.after.upload.parserTxObj sha384DigestLen =
    .ok digest

/-- Every signing of a run is true to the review it answers. -/
def SignsAsReviewed (tr : List Step) : Prop :=
  ∀ pre e post salt digest sig, tr = pre ++ e :: post → e.input = .approve salt → e.before.review = some .txn →
    Signs P e.before.upload e.before.store salt digest sig →
    ∃ opening since, Reviewing P pre opening since ∧ AsReviewed P opening e digest

/-- No approval of a transaction comes when, since its review was opened, an `INIT` came and a chunk was written after it. -/
def NeverOverwritten (tr : List Step) : Prop :=
  ∀ pre e post salt opening since, tr = pre ++ e :: post → e.input = .approve salt → e.before.review = some .txn →
    Reviewing P pre opening since → ¬Overwritten P since

namespace ReviewAux

/-! ## The buffer and the object -/

/-- The object still is what was parsed, from a region that still starts with what it was parsed from, and no chunk goes there:
either the buffer is filled further than that, or it was reset and not filled since. -/
structure Kept (u₀ u : Upload) (reset : Prop) : Prop where
  obj : u.parserTxObj = u₀.parserTxObj
  take : u.buffering.data.take (u₀.buffering.pos % 65536) = u₀.buffering.data.take (u₀.buffering.pos % 65536)
  pos : u₀.buffering.pos % 65536 ≤ u.buffering.pos ∨ (reset ∧ u.buffering.pos = 0)

/-- A chunk that goes behind the parsed bytes, or of which nothing is written, leaves them alone. -/
theorem Kept.append {u₀ u : Upload} {reset : Prop} (h : Kept u₀ u reset) (hv : u.buffering.Valid) (c : List UInt8)
    (hw : reset → P.appended u.buffering.size u.buffering.pos c = 0) : Kept u₀ (u.append P c) reset := by
  by_cases h0 : P.appended u.buffering.size u.buffering.pos c = 0
  · have hb : (txAppend P u.buffering c).2 = u.buffering := by
      simp only [txAppend, h0, List.take_zero, patch_nil, Nat.add_zero]
    rw [Upload.append, hb]
    exact h
  · have hpos : u₀.buffering.pos % 65536 ≤ u.buffering.pos := h.pos.resolve_right fun hr => h0 (hw hr.1)
    refine ⟨h.obj, ?_, Or.inl ?_⟩
    · rw [← h.take]
      exact take_patch_of_le hpos hv.pos_le
    · simp only [Upload.append, txAppend]
      omega

/-- Parsing the buffer again leaves the object as it is. -/
theorem Kept.parse {u₀ u u' : Upload} {reset : Prop} (h : Kept u₀ u reset)
    (hp : u₀.parserTxObj.ParsedFrom u₀.buffering.data (u₀.buffering.pos % 65536)) {store : CryptoStore} {expert : Bool}
    {e : ParserError} (hrun : (txParse P store expert).run u = .error e u') : Kept u₀ u' reset := by
  have hp' : u.parser.v.ParsedFrom u.buffering.data (u₀.buffering.pos % 65536) := by
    rw [Upload.parser, h.obj]
    exact (hp.of_take h.take).1
  obtain ⟨hok, herr⟩ := hp'.parse_again (m := u.buffering.pos)
  have same : ∀ p : ParseState, p.v = u.parser.v → Kept u₀ ({ u with txObj := ParserTx.zero }.setParser p) reset :=
    fun p hv => ⟨hv.trans h.obj, h.take, h.pos⟩
  rw [run_txParse] at hrun
  split at hrun
  · rename_i p heq
    cases hrun
    exact same p (herr _ _ heq)
  · rename_i p heq
    split at hrun
    · cases hrun
      exact same p (hok _ _ heq)
    · cases hrun

theorem Kept.mono {u₀ u : Upload} {reset reset' : Prop} (h : Kept u₀ u reset) (hr : reset → reset') : Kept u₀ u reset' :=
  ⟨h.obj, h.take, h.pos.imp id fun hp => ⟨hr hp.1, hp.2⟩⟩

/-- What a successful `tx_parse` leaves was parsed from the buffer and passed the validation. -/
theorem txParse_ok {store : CryptoStore} {expert : Bool} {u u' : Upload} (hv : u.buffering.Valid)
    (h : (txParse P store expert).run u = .ok () u') :
    parserValidate P u'.buffering.data store expert u'.parserTxObj = .ok () ∧
      u'.parserTxObj.ParsedFrom u'.buffering.data (u'.buffering.pos % 65536) := by
  rw [run_txParse] at h
  split at h
  · cases h
  · rename_i p heq
    split at h
    · cases h
    · rename_i hval
      cases h
      exact ⟨hval, parserParse_parsedFrom hv.pos_le heq⟩

/-! ## The steps since the opening -/

/-- An opening: the transaction on the screen was parsed from the buffer, and it passed the validation. -/
structure Opened (e : Step) : Prop where
  opens : OpensReview P e
  ready : e.before.store.deviceInitialized = true
  store : e.after.store = e.before.store
  validated : parserValidate P e.after.upload.buffering.data e.before.store e.before.expert e.after.upload.parserTxObj = .ok ()
  parsed : e.after.upload.parserTxObj.ParsedFrom e.after.upload.buffering.data (e.after.upload.buffering.pos % 65536)

/-- The keys are those of another store, and the device is initialised. -/
structure SameKeys (s s' : CryptoStore) : Prop where
  ready : s'.deviceInitialized = true
  slots : s'.nCryptoStore = s.nCryptoStore
  use : s'.slotInUse = s.slotInUse

/-- A pending review of a transaction: its opening, and what stayed as it was then. -/
structure Pending (tr : List Step) (opening : Step) (since : List Step) (d : Device) : Prop where
  reviewing : Reviewing P tr opening since
  opened : Opened P opening
  keys : SameKeys opening.before.store d.store
  kept : ¬Overwritten P since → Kept opening.after.upload d.upload (∃ i ∈ since, IsInit i)

variable {P}

theorem not_opensReview {e : Step} (h : ∀ a, e.input = .apdu a → ¬Reaches e.before a insSign) : ¬OpensReview P e :=
  fun ⟨a, _, _, ha, hcall, _⟩ => h a ha hcall.1

/-- An `INIT` among the steps and a chunk written by the last one. -/
theorem overwritten_of_writes {since : List Step} {e : Step} (hi : ∃ i ∈ since, IsInit i) (hw : WritesChunk P e) :
    Overwritten P (since ++ [e]) := by
  obtain ⟨i, hmem, hinit⟩ := hi
  obtain ⟨pre, mid, rfl⟩ := List.append_of_mem hmem
  exact ⟨pre, i, mid, e, [], by simp, hinit, hw⟩

theorem overwritten_snoc {since : List Step} (h : Overwritten P since) (e : Step) : Overwritten P (since ++ [e]) := by
  obtain ⟨pre, i, mid, w, post, rfl, hi, hw⟩ := h
  exact ⟨pre, i, mid, w, post ++ [e], by simp, hi, hw⟩

theorem reviewing_snoc {tr since : List Step} {opening e : Step} (h : Reviewing P tr opening since) (he : ¬OpensReview P e) :
    Reviewing P (tr ++ [e]) opening (since ++ [e]) := by
  obtain ⟨p, rfl⟩ := h.split
  refine ⟨⟨p, by simp⟩, h.opens, ?_⟩
  intro x hx
  rcases List.mem_append.1 hx with hx | hx
  · exact h.last x hx
  · rw [List.mem_singleton.1 hx]
    exact he

/-- A step that opens no review and changes no key keeps a pending one, when it does what it must to the buffer and the
object. -/
theorem Pending.snoc {tr since : List Step} {opening e : Step} {d : Device} (h : Pending P tr opening since d)
    (he : ¬OpensReview P e) (hkeys : SameKeys d.store e.after.store)
    (hkept : ∀ {u₀ reset}, Kept u₀ d.upload reset → u₀.parserTxObj.ParsedFrom u₀.buffering.data (u₀.buffering.pos % 65536) →
      (reset → ¬WritesChunk P e) → Kept u₀ e.after.upload (reset ∨ IsInit e)) :
    Pending P (tr ++ [e]) opening (since ++ [e]) e.after := by
  refine ⟨reviewing_snoc h.reviewing he, h.opened, ⟨hkeys.ready, hkeys.slots.trans h.keys.slots, hkeys.use.trans h.keys.use⟩, ?_⟩
  intro hno
  have hno' : ¬Overwritten P since := fun ho => hno (overwritten_snoc ho e)
  refine (hkept (h.kept hno') h.opened.parsed fun hr hw => hno (overwritten_of_writes hr hw)).mono ?_
  rintro (⟨i, hi, hinit⟩ | hinit)
  · exact ⟨i, List.mem_append_left _ hi, hinit⟩
  · exact ⟨e, by simp, hinit⟩

/-- What a command that opens a review passed. -/
theorem opensReview_apdu {d d' : Device} {a : Apdu} {o : Output} (h : OpensReview P ⟨d, .apdu a, o, d'⟩) :
    a.p2 = 0 ∧ a.p1 = p1Last ∧ d.upload.txInitialized = true ∧ d.upload.Fits P a.data ∧
      ∃ u, (txParse P d.store d.expert).run (d.upload.append P a.data) = .ok () u := by
  obtain ⟨b, u, u', hb, hcall, hparse⟩ := h
  cases hb
  obtain ⟨h2, h1, hi, hf, rfl⟩ := hcall.eq
  exact ⟨h2, h1, hi, hf, u', hparse⟩

variable (P)

/-- On an initialised device no step changes a key. -/
theorem sameKeys_step {d : Device} (hi : d.store.deviceInitialized = true) (ev : Event) :
    SameKeys d.store (d.step P ev).1.store := by
  by_cases hev : ∃ phrase fails, ev = .storeInit phrase fails
  · obtain ⟨phrase, fails, rfl⟩ := hev
    change SameKeys d.store (storeInit P phrase fails d).1.store
    unfold storeInit
    rw [if_pos hi]
    exact ⟨hi, rfl, rfl⟩
  · obtain ⟨hready, hslots, huse⟩ := step_keys P fun phrase fails h => hev ⟨phrase, fails, h⟩
    exact ⟨hready.trans hi, hslots, huse⟩

/-- The review of a transaction is opened by `SIGN` commands only. -/
theorem review_of_not_sign {d : Device} {ev : Event} (h : ∀ a, ev = .apdu a → ¬Reaches d a insSign)
    (hr : (d.step P ev).1.review = some .txn) : d.review = some .txn := by
  cases ev with
  | apdu a =>
    change (receive P a d).1.review = _ at hr
    have he := receive_effect P d a
    generalize (receive P a d).1 = d' at he hr
    generalize (receive P a d).2 = o at he
    cases he with
    | sign hreach _ => exact absurd hreach (h a rfl)
    | addressReview _ => cases hr
    | _ => exact hr
  | approve salt =>
    change (approve P salt d).1.review = _ at hr
    have he := approve_effect P d salt
    generalize (approve P salt d).1 = d' at he hr
    generalize (approve P salt d).2 = o at he
    cases he with
    | idle _ => exact hr
    | _ => cases hr
  | reject =>
    change (reject d).1.review = _ at hr
    rcases reject_effect d with ⟨-, he⟩ | ⟨io, he⟩
    · rw [he] at hr
      exact hr
    · rw [he] at hr
      cases hr
  | storeInit phrase fails =>
    change (storeInit P phrase fails d).1.review = _ at hr
    unfold storeInit at hr
    split at hr <;> exact hr
  | setExpert on => exact hr
  | setPin validated => exact hr

/-- A `SIGN` command that reached its handler opens a review, or it does to the buffer and the object what keeps a pending one. -/
theorem opened_or_kept {d : Device} {a : Apdu} (hreach : Reaches d a insSign) (hv : d.upload.buffering.Valid) {u : Upload}
    {r : Option Review} {o : Output} (heff : SignEffect P d a u r o) {e : Step}
    (he : e = ⟨d, .apdu a, o, { d with io := e.after.io, upload := u, review := r }⟩) :
    Opened P e ∨ (r = d.review ∧ ¬OpensReview P e ∧ ∀ u₀ reset, Kept u₀ d.upload reset →
      u₀.parserTxObj.ParsedFrom u₀.buffering.data (u₀.buffering.pos % 65536) → (reset → ¬WritesChunk P e) →
      Kept u₀ u (reset ∨ IsInit e)) := by
  -- a chunk that is appended where it may be
  have append : ∀ {u₀ reset}, chunkOf e = some a.data → Kept u₀ d.upload reset → (reset → ¬WritesChunk P e) →
      Kept u₀ (d.upload.append P a.data) reset := by
    intro u₀ reset hchunk hk hno
    refine hk.append P hv a.data fun hreset => Nat.eq_zero_of_not_pos fun hpos => hno hreset ⟨a.data, hchunk, ?_⟩
    rw [he]
    exact hpos
  have hopens : OpensReview P e → _ := fun ho => opensReview_apdu (he ▸ ho)
  have chunk : a.p2 = 0 → (a.p1 = p1Add ∨ (a.p1 = p1Last ∧ d.upload.txInitialized = true)) → chunkOf e = some a.data := by
    intro h2 h1
    rw [he]
    exact SessionAux.chunkOf_apdu hreach h2 h1
  cases heff with
  | badP2 h2 => exact Or.inr ⟨rfl, fun ho => h2 (hopens ho).1, fun _ _ hk _ _ => hk.mono Or.inl⟩
  | init h2 h1 =>
    refine Or.inr ⟨rfl, ?_, fun _ _ hk _ _ => ⟨hk.obj, hk.take, Or.inr ⟨Or.inr ?_, rfl⟩⟩⟩
    · intro ho
      exact absurd ((hopens ho).2.1.symm.trans h1) (by decide)
    · rw [he]
      exact SessionAux.isInit_apdu.2 ⟨hreach, h2, h1⟩
  | add h2 h1 hf =>
    refine Or.inr ⟨rfl, ?_, fun _ _ hk _ hno => (append (chunk h2 (Or.inl h1)) hk hno).mono Or.inl⟩
    intro ho
    exact absurd ((hopens ho).2.1.symm.trans h1) (by decide)
  | full h2 h1 hf =>
    refine Or.inr ⟨rfl, fun ho => hf (hopens ho).2.2.2.1, ?_⟩
    intro _ _ hk _ hno
    have hk' := append (chunk h2 h1) hk hno
    exact ⟨hk'.obj, hk'.take, hk'.pos.imp id fun hp => ⟨Or.inl hp.1, hp.2⟩⟩
  | notStarted h2 h1 hi =>
    exact Or.inr ⟨rfl, fun ho => by simp [(hopens ho).2.2.1] at hi, fun _ _ hk _ _ => hk.mono Or.inl⟩
  | badP1 h2 h1 =>
    exact Or.inr ⟨rfl, fun ho => h1.2.2 (hopens ho).2.1, fun _ _ hk _ _ =>
      ⟨hk.obj, hk.take, hk.pos.imp id fun hp => ⟨Or.inl hp.1, hp.2⟩⟩⟩
  | parseError h2 h1 hi hf hparse =>
    refine Or.inr ⟨rfl, ?_, ?_⟩
    · intro ho
      obtain ⟨-, -, -, -, u', hok⟩ := hopens ho
      rw [hparse] at hok
      cases hok
    · intro _ _ hk hp hno
      exact ((append (chunk h2 (Or.inr ⟨h1, hi⟩)) hk hno).parse P hp hparse).mono Or.inl
  | review h2 h1 hi hf hparse =>
    obtain ⟨hval, hparsed⟩ := txParse_ok P (txAppend_valid P hv a.data).1 hparse
    rw [he]
    exact Or.inl ⟨⟨a, _, u, rfl, ParseCall.of P hreach h2 h1 hi hf, hparse⟩, hreach.ready, rfl, hval, hparsed⟩

/-- Every step keeps a pending review as it was opened, closes it, or opens a new one. -/
theorem pending_step {tr : List Step} {d : Device} (hv : d.upload.buffering.Valid)
    (h : d.review = some .txn → ∃ opening since, Pending P tr opening since d) (ev : Event)
    (hr : (d.step P ev).1.review = some .txn) :
    ∃ opening since, Pending P (tr ++ [Entry.ofStep (Device.step P) d ev]) opening since (d.step P ev).1 := by
  by_cases hsign : ∃ a, ev = .apdu a ∧ Reaches d a insSign
  · obtain ⟨a, rfl, hreach⟩ := hsign
    obtain ⟨io, u, r, o, heff, hstep⟩ := step_of_reaches_sign P hreach
    have hentry : Entry.ofStep (Device.step P) d (.apdu a) =
        ⟨d, .apdu a, o, { d with io := io, upload := u, review := r }⟩ := by rw [Entry.ofStep, hstep]
    rw [hstep] at hr
    rw [hentry, hstep]
    have hkeys : SameKeys d.store d.store := ⟨hreach.ready, rfl, rfl⟩
    rcases opened_or_kept P hreach hv heff (e := ⟨d, .apdu a, o, { d with io := io, upload := u, review := r }⟩) rfl with
      hopened | ⟨hrev, hno, hkept⟩
    · exact ⟨_, [], ⟨⟨tr, rfl⟩, hopened.opens, by simp⟩, hopened, hkeys, fun _ => ⟨rfl, rfl, Or.inl (Nat.mod_le _ _)⟩⟩
    · obtain ⟨opening, since, hp⟩ := h (hrev.symm.trans hr)
      exact ⟨opening, _, hp.snoc hno hkeys fun hk hpf hw => hkept _ _ hk hpf hw⟩
  · have hno : ∀ a, ev = .apdu a → ¬Reaches d a insSign := fun a ha hreach => hsign ⟨a, ha, hreach⟩
    obtain ⟨opening, since, hp⟩ := h (review_of_not_sign P hno hr)
    have hready : d.store.deviceInitialized = true := hp.keys.ready
    refine ⟨opening, _, hp.snoc (not_opensReview hno) (sameKeys_step P hready ev) ?_⟩
    intro _ _ hk _ _
    rw [show (Entry.ofStep (Device.step P) d ev).after = (d.step P ev).1 from rfl, step_upload_of_not_sign P hno]
    exact hk.mono Or.inl

/-- In every run from a boot, what stayed as it was since the opening of a pending review. -/
theorem pending_run {d₀ : Device} (h₀ : d₀.Booted) {tr : List Step} {d : Device} (h : Run (Device.step P) d₀ tr d) :
    d.review = some .txn → ∃ opening since, Pending P tr opening since d := by
  refine h.history (fun tr d => d.review = some .txn → ∃ opening since, Pending P tr opening since d) ?_
    fun tr s i hrun hs => pending_step P (sessionInv_run P h₀ hrun).valid hs i
  intro hr
  rw [h₀.review] at hr
  cases hr

/-- A step receives an APDU with the first parameter of a `LAST`. -/
def receivesLast (e : Step) : Bool :=
  match e.input with
  | .apdu a => a.p1 = p1Last
  | _ => false

end ReviewAux

open ReviewAux

/-- In every run from a boot in which no approval comes after an `INIT` and a chunk since the review was opened, whatever else
arrives meanwhile, every signing is of the content that was validated and shown when the review it answers was opened. -/
theorem signs_as_reviewed (d₀ : Device) (h₀ : d₀.Booted) (tr : List Step) (d : Device) (h : Run (Device.step P) d₀ tr d)
    (hnever : NeverOverwritten P tr) : SignsAsReviewed P tr := by
  intro pre e post salt digest sig htr hin hrev hsigns
  obtain ⟨hrun, -⟩ := h.split htr
  obtain ⟨opening, since, hp⟩ := pending_run P h₀ hrun hrev
  have hkept := hp.kept (hnever pre e post salt opening since htr hin hrev hp.reviewing)
  obtain ⟨f, hf, hholds⟩ := hp.opened.parsed.shows
  have hholds' := hholds.of_take hkept.take
  obtain ⟨⟨hi, howner⟩, -⟩ := (parserValidate_ok_iff hholds hf).1 hp.opened.validated
  have hfields : opening.after.upload.fields = f := hholds.fields_eq
  have hslot : e.before.store.slot = opening.before.store.slot := by
    rw [CryptoStore.slot, CryptoStore.slot, hp.keys.slots, hp.keys.use]
  refine ⟨opening, since, hp.reviewing, hp.opened.validated, ?_, ?_, ⟨?_, ?_⟩, ?_⟩
  · rw [hfields, Upload.fields, hkept.obj]
    exact hholds'.fields_eq
  · rw [hkept.obj]
    exact parserGetItem_congr hholds hholds'
  · rw [cryptoStoreIsInitialized, hslot]
    exact hi
  · rw [hfields, hslot]
    exact howner
  · have hdigest := hsigns.hashed
    rw [hkept.obj] at hdigest
    rw [← hdigest]
    exact parserGetDigest_congr P.sha384 hholds' hholds _

end

/-- An upload, a chunk that comes while the user looks at the review, and the approval. -/
theorem signs_as_reviewed_late_chunk :
    let is := Demo.upload (encodeTx Demo.tx) ++ [Demo.sign p1Add [7], .approve 0]
    (final (Device.step Demo.platform) (Demo.device 1000) is).store.signatureSet = 1 ∧
      SignsAsReviewed Demo.platform (trace (Device.step Demo.platform) (Demo.device 1000) is) := by
  intro is
  refine ⟨by decide +kernel, signs_as_reviewed Demo.platform _ (Demo.device_booted 1000) _ _ (run_trace _ _ is) ?_⟩
  intro pre e post salt opening since htr hin hrev hreviewing hover
  obtain ⟨p, rfl⟩ := hreviewing.split
  obtain ⟨m, i, mid, w, m', rfl, ⟨a, ⟨ha, -⟩, -, h1⟩, -⟩ := hover
  -- the only `INIT` comes first, before any opening
  have hmem : i ∈ (trace (Device.step Demo.platform) (Demo.device 1000) is).tail := by
    rw [htr]
    cases p with
    | nil => simp
    | cons x p => simp
  simp only [is, Demo.upload, List.cons_append, List.nil_append, trace, List.tail_cons, List.mem_cons, List.not_mem_nil,
    or_false] at hmem
  rcases hmem with rfl | rfl | rfl | rfl | rfl <;> cases ha <;> exact absurd h1 (by decide +kernel)

/-- After an upload, another transaction with another target is sent while the user looks at the review; its last chunk is sent
as an `ADD`. The approval signs the other transaction. -/
theorem not_signs_as_reviewed :
    let other := encodeTx { Demo.tx with target := [3, 4] }
    ¬SignsAsReviewed Demo.platform (trace (Device.step Demo.platform) (Demo.device 1000)
      (Demo.upload (encodeTx Demo.tx) ++ [Demo.sign p1Init [], Demo.sign p1Add (slice other 0 250),
        Demo.sign p1Add (slice other 250 250), Demo.sign p1Add (slice other 500 250)] ++ [.approve 0])) := by
  intro other h
  rw [trace_concat] at h
  generalize his : Demo.upload (encodeTx Demo.tx) ++ [Demo.sign p1Init [], Demo.sign p1Add (slice other 0 250),
    Demo.sign p1Add (slice other 250 250), Demo.sign p1Add (slice other 500 250)] = is at h
  have hreview : (final (Device.step Demo.platform) (Demo.device 1000) is).review = some .txn := by
    rw [← his]
    decide +kernel
  have hsigns : ∃ digest sig, Signs Demo.platform (final (Device.step Demo.platform) (Demo.device 1000) is).upload
      (final (Device.step Demo.platform) (Demo.device 1000) is).store 0 digest sig := by
    rcases run_cryptoSign Demo.platform _ _ 0 with ⟨digest, sig, hs, -⟩ | ⟨-, e, hrun⟩
    · exact ⟨digest, sig, hs⟩
    · have hok : (returned ((cryptoSign Demo.platform (final (Device.step Demo.platform) (Demo.device 1000) is).upload 0
          (ioApduBufferSize - 3)).run (final (Device.step Demo.platform) (Demo.device 1000) is).store)).isSome = true := by
        rw [← his]
        decide +kernel
      rw [hrun] at hok
      cases hok
  obtain ⟨digest, sig, hs⟩ := hsigns
  obtain ⟨opening, since, hreviewing, hasr⟩ := h _ _ [] 0 digest sig rfl rfl hreview hs
  -- the last chunk of the first transaction opened the review, and the content was another one then
  have hlast : (trace (Device.step Demo.platform) (Demo.device 1000) is).all (fun x => ReviewAux.receivesLast x →
      (final (Device.step Demo.platform) (Demo.device 1000) is).upload.fields ≠ x.after.upload.fields) = true := by
    rw [← his]
    decide +kernel
  obtain ⟨p, hp⟩ := hreviewing.split
  obtain ⟨a, u, u', ha, hcall, -⟩ := hreviewing.opens
  have hopening := List.all_eq_true.1 hlast opening (by rw [hp]; simp)
  have hlast : ReviewAux.receivesLast opening = true := by
    rw [ReviewAux.receivesLast, ha]
    exact decide_eq_true hcall.eq.2.1
  exact of_decide_eq_true hopening hlast hasr.fields

end LedgerArweave
