import LedgerArweave.Addr
import LedgerArweave.Demo
import LedgerArweave.Session

/-!
# The answers

The form of an answer and their number. Over every run, each answer ends in one of the status words of the app and has in front
of it nothing, the description of a parser error, or data of one of four lengths, and no write leaves the APDU buffer. And every
command is answered once, at once or by the review it opened, unless a later review took the place of that one.
-/

namespace LedgerArweave

open Lib

/-- The status words the app answers with, but for that of a locked device. -/
def statusWords : List StatusWord :=
  [apduCodeOk, apduCodeExecutionError, apduCodeWrongLength, apduCodeOutputBufferTooSmall, apduCodeDataInvalid,
    apduCodeConditionsNotSatisfied, apduCodeCommandNotAllowed, apduCodeTxNotInitialized, apduCodeInvalidP1P2,
    apduCodeInsNotSupported, apduCodeClaNotSupported, apduCodeSignVerifyError]

/-- The lengths of a version, an address, a digest and a half of a modulus or of a signature. -/
def dataLengths : List Nat := [9, addrStrLen, sha384DigestLen, rsaModulusHalve]

/-- The answers the app gives. -/
inductive IsAnswer (P : Platform) : List UInt8 → Prop where
  | plain {sw : StatusWord} (h : sw ∈ statusWords ∨ sw = answeredSw P.pinCode) : IsAnswer P (swBytes sw)
  | parserError (e : ParserError) : IsAnswer P (ascii (parserGetErrorDescription e) ++ swBytes apduCodeDataInvalid)
  | data {body : List UInt8} (h : body.length ∈ dataLengths) : IsAnswer P (body ++ swBytes apduCodeOk)

/-- The APDU buffer has its size, and the length kept for the address, zero after a boot, is that or that of an address. -/
structure Device.Sized (d : Device) : Prop where
  io : d.io.length = ioApduBufferSize
  address : d.actionAddrResponseLen = 0 ∨ d.actionAddrResponseLen = addrStrLen

namespace AnswersAux

section

variable {P : Platform}

/-! ## Parts of a handler -/

/-- A handler at work, with `n` bytes of its answer written. -/
structure AtWork (n : Nat) (f : Frame) : Prop where
  sized : f.dev.Sized
  tx : f.tx = n
  asynch : f.asynch = false

/-- A handler that left the answer to a review. -/
def Left (f : Frame) : Prop := f.dev.Sized ∧ f.asynch = true

/-- A handler that threw a status word behind what it wrote. -/
structure Thrown (P : Platform) (e : StatusWord) (f : Frame) : Prop where
  sized : f.dev.Sized
  asynch : f.asynch = false
  tx : f.tx + 2 ≤ ioApduBufferSize
  answer : IsAnswer P (f.dev.io.take f.tx ++ swBytes (answeredSw e))

/-- The answer for a status word of the app is the status word. -/
theorem answeredSw_eq {sw : StatusWord} (h : sw ∈ statusWords) : answeredSw sw = sw := by
  have hall : (statusWords.all fun sw => answeredSw sw == sw) = true := by decide
  exact eq_of_beq (List.all_eq_true.1 hall sw h)

/-- A status word alone. -/
theorem AtWork.throw_plain {e : StatusWord} (he : e ∈ statusWords) {f : Frame} (h : AtWork 0 f) : Thrown P e f := by
  refine ⟨h.sized, h.asynch, by rw [h.tx]; decide, ?_⟩
  rw [h.tx, List.take_zero, List.nil_append, answeredSw_eq he]
  exact .plain (Or.inl he)

/-- Success behind data. -/
theorem AtWork.throw_data {n : Nat} (hn : n ∈ dataLengths) {f : Frame} (h : AtWork n f) : Thrown P apduCodeOk f := by
  have hle : n + 2 ≤ ioApduBufferSize := by
    revert hn
    simp only [dataLengths, List.mem_cons, List.not_mem_nil, or_false]
    rintro (rfl | rfl | rfl | rfl) <;> decide
  refine ⟨h.sized, h.asynch, by rw [h.tx]; exact hle, ?_⟩
  rw [h.tx, answeredSw_eq (by decide)]
  refine .data ?_
  rw [List.length_take_of_le (by rw [h.sized.io]; omega)]
  exact hn

/-- A write that fits the APDU buffer leaves it its size. -/
theorem sized_patch {d : Device} (h : d.Sized) {o : Nat} {bytes : List UInt8} (hfits : o + bytes.length ≤ ioApduBufferSize) :
    ({ d with io := patch d.io o bytes } : Device).Sized :=
  ⟨(length_patch (by rw [h.io]; exact hfits)).trans h.io, h.address⟩

variable {E : StatusWord → Frame → Prop}

/-- Setting the length of the answer. -/
theorem triple_setTx (n m : Nat) : Triple (AtWork n) (setTx m) (fun _ => AtWork m) E :=
  .modify fun _ h => ⟨h.sized, rfl, h.asynch⟩

/-- Clearing the APDU buffer keeps its size. -/
theorem triple_zeroIo (n : Nat) : Triple (AtWork n) zeroIo (fun _ => AtWork n) E :=
  .modify fun _ h => ⟨⟨List.length_replicate, h.sized.address⟩, h.tx, h.asynch⟩

/-- Bytes that fit are there after they were written. -/
theorem triple_writeIo (n : Nat) {bytes : List UInt8} (hb : bytes.length ≤ ioApduBufferSize) :
    Triple (AtWork n) (writeIo bytes) (fun _ f => AtWork n f ∧ f.dev.io.take bytes.length = bytes) E :=
  .modify fun f h => ⟨⟨sized_patch h.sized (by omega), h.tx, h.asynch⟩, take_patch_zero _ _⟩

/-- A review is opened, and nothing is answered yet. -/
theorem triple_openReview (n : Nat) (r : Review) : Triple (AtWork n) (openReview r) (fun _ => Left) E :=
  .modify fun _ h => ⟨⟨h.sized.io, h.sized.address⟩, rfl⟩

/-- Keeping the length of an address, or none. -/
theorem triple_setAddressLen (n : Nat) {len : Nat} (hlen : len = 0 ∨ len = addrStrLen) :
    Triple (AtWork n) (modify fun f => { f with dev.actionAddrResponseLen := len }) (fun _ => AtWork n) E :=
  .modify fun _ h => ⟨⟨h.sized.io, hlen⟩, h.tx, h.asynch⟩

/-- A program that reads its state. -/
theorem triple_get_bind {α : Type} {I : Frame → Prop} {k : Frame → Handler α} {Q : α → Frame → Prop}
    (h : ∀ f, Triple I (k f) Q E) : Triple I (get >>= k) Q E := fun f hf => h f f hf

/-- What the upload is needs no APDU buffer. -/
theorem triple_onUpload {α : Type} {n : Nat} {x : EStateM StatusWord Upload α}
    (he : ∀ u e u', x.run u = .error e u' → ∀ f, AtWork n f → E e f) :
    Triple (AtWork n) (zoom Frame.upload Frame.setUpload x) (fun _ => AtWork n) E := by
  have keep : ∀ {f : Frame} (u : Upload), AtWork n f → AtWork n (f.setUpload u) := fun u h =>
    ⟨⟨h.sized.io, h.sized.address⟩, h.tx, h.asynch⟩
  intro f hf
  cases hx : x.run f.upload with
  | ok a u => exact Triple.at_ok (run_zoom_of_ok hx) (keep u hf)
  | error e u => exact Triple.at_error (run_zoom_of_error hx) (he _ _ _ hx _ (keep u hf))

/-! ## The handlers -/

/-- The version has nine bytes. -/
theorem triple_handleGetversion : Triple (AtWork 0) (handleGetversion P) (fun _ => Left) (Thrown P) := by
  have hlen : P.version.1.length ≤ ioApduBufferSize := by
    rw [P.version.2]
    decide
  refine .bind (triple_writeIo 0 hlen) fun _ => .bind (Q := fun _ => AtWork 9) (.modify ?_) fun _ => .throw ?_
  · rintro f ⟨h, -⟩
    exact ⟨h.sized, by rw [h.tx], h.asynch⟩
  · exact fun f h => h.throw_data (by decide)

/-- A part has half the bytes of a modulus. -/
theorem triple_handlePart {part : (bufferLen index : Nat) → EStateM ZxErr CryptoStore (List UInt8)}
    (hpart : ∀ index s bytes s', (part (ioApduBufferSize - 3) index).run s = .ok bytes s' → bytes.length = rsaModulusHalve) :
    Triple (AtWork 0) (handlePart part) (fun _ => Left) (Thrown P) := by
  refine .bind (triple_setTx 0 0) fun _ => triple_get_bind fun f => .ite (fun _ => ?_) fun _ => ?_
  · exact .throw fun f h => h.throw_plain (by decide)
  refine .bind (triple_zeroIo 0) fun _ => .bind
    (Q := fun r f => AtWork 0 f ∧ ∀ bytes, r = .ok bytes → bytes.length = rsaModulusHalve) ?_ fun r => ?_
  · intro g hg
    have keep : ∀ s, AtWork 0 (g.setStore s) := fun s => ⟨⟨hg.sized.io, hg.sized.address⟩, hg.tx, hg.asynch⟩
    cases hx : (part (ioApduBufferSize - 3) (f.dev.io.getD offsetP2 0).toNat).run g.store with
    | ok bytes s =>
      refine Triple.at_ok (run_attempt_zoom_of_ok hx) ⟨keep s, ?_⟩
      rintro b ⟨⟩
      exact hpart _ _ _ _ hx
    | error e s => exact Triple.at_ok (run_attempt_zoom_of_error hx) ⟨keep s, nofun⟩
  · cases r with
    | error e =>
      refine .bind (Q := fun _ => AtWork 0) (.modify fun f h => ?_) fun _ => .throw fun f h => h.throw_plain (by decide)
      exact ⟨h.1.sized, rfl, h.1.asynch⟩
    | ok bytes =>
      refine .bind (Q := fun _ => AtWork 0) (.modify ?_) fun _ => .bind (triple_setTx 0 256) fun _ => .throw ?_
      · rintro f ⟨h, hlen⟩
        exact ⟨sized_patch h.sized (by rw [hlen bytes rfl]; decide), h.tx, h.asynch⟩
      · exact fun f h => h.throw_data (by decide)

/-- The address has 43 characters, and its length is kept for the review. -/
theorem triple_handleGetAddress : Triple (AtWork 0) (handleGetAddress P) (fun _ => Left) (Thrown P) := by
  refine .bind (triple_setTx 0 0) fun _ => triple_get_bind fun f => .ite (fun _ => ?_) fun _ => ?_
  · exact .throw fun f h => h.throw_plain (by decide)
  refine .bind (triple_zeroIo 0) fun _ => .bind (triple_setAddressLen 0 (Or.inl rfl)) fun _ => ?_
  cases haddr : cryptoFillAddress P f.dev.store (ioApduBufferSize - 2) with
  | error e => exact .throw fun f h => h.throw_plain (by decide)
  | ok addrStr =>
    have hlen : addrStr.length = addrStrLen := by
      rw [cryptoFillAddress_eq P f.dev.store (by decide)] at haddr
      split at haddr
      · cases haddr
        exact length_addressOf P _
      · cases haddr
    refine .bind (triple_writeIo 0 (by rw [hlen]; decide)) fun _ => .bind (Q := fun _ => AtWork 0) (.modify ?_) fun _ => ?_
    · rintro f ⟨h, -⟩
      exact ⟨⟨h.sized.io, Or.inr rfl⟩, h.tx, h.asynch⟩
    · refine .ite (fun _ => triple_openReview 0 .address) fun _ => .bind (triple_setTx 0 addrStrLen) fun _ => .throw ?_
      exact fun f h => h.throw_data (by decide)

/-- What `process_chunk` throws. -/
theorem processChunk_error {io : List UInt8} {rx : Nat} {u u' : Upload} {e : StatusWord}
    (h : (processChunk P io rx).run u = .error e u') : e ∈ statusWords := by
  have htriple : Triple (fun _ => True) (processChunk P io rx) (fun _ _ => True) (fun e _ => e ∈ statusWords) := by
    have throw : ∀ {sw : StatusWord} {I : Upload → Prop}, sw ∈ statusWords →
        Triple I (throw sw : EStateM StatusWord Upload Bool) (fun _ _ => True) (fun e _ => e ∈ statusWords) := fun h =>
      .throw fun _ _ => h
    have skip : ∀ {f : Upload → Upload} {k : Unit → EStateM StatusWord Upload Bool},
        (∀ u, Triple (fun _ => True) (k u) (fun _ _ => True) (fun e _ => e ∈ statusWords)) →
        Triple (fun _ => True) (modify f >>= k) (fun _ _ => True) (fun e _ => e ∈ statusWords) := fun hk =>
      .bind (Q := fun _ _ => True) (.modify fun _ _ => trivial) hk
    refine .ite (fun _ => throw (by decide)) fun _ => .ite (fun _ => throw (by decide)) fun _ => ?_
    refine .ite (fun _ => skip fun _ => .pure fun _ _ => trivial) fun _ => .ite (fun _ => ?_) fun _ => ?_
    · refine .bind (Q := fun _ _ => True) (.get fun _ _ => trivial) fun u => skip fun _ => .ite (fun _ => ?_) fun _ => ?_
      · exact skip fun _ => throw (by decide)
      · exact .pure fun _ _ => trivial
    refine .ite (fun _ => ?_) fun _ => skip fun _ => throw (by decide)
    refine .bind (Q := fun _ _ => True) (.get fun _ _ => trivial) fun u => .ite (fun _ => throw (by decide)) fun _ => ?_
    refine skip fun _ => .ite (fun _ => ?_) fun _ => ?_
    · exact skip fun _ => throw (by decide)
    · exact .pure fun _ _ => trivial
  exact htriple.error trivial h

/-- No description of an error is longer than 40 characters. -/
theorem length_description (e : ParserError) : (ascii (parserGetErrorDescription e)).length ≤ 40 := by
  cases e <;> decide

/-- `SIGN` answers a status word, the description of an error, or nothing while the review is open. -/
theorem triple_handleSign (rx : Nat) : Triple (AtWork 0) (handleSign P rx) (fun _ => Left) (Thrown P) := by
  refine triple_get_bind fun f => .bind (triple_onUpload fun u e u' hx g hg => hg.throw_plain (processChunk_error hx))
    fun last => .ite (fun _ => .throw fun f h => h.throw_plain (by decide)) fun _ => ?_
  refine .bind (Q := fun _ => AtWork 0) ?_ fun r => ?_
  · intro g hg
    have keep : ∀ u, AtWork 0 (g.setUpload u) := fun u => ⟨⟨hg.sized.io, hg.sized.address⟩, hg.tx, hg.asynch⟩
    cases hx : (txParse P f.dev.store f.dev.expert).run g.upload with
    | ok a u => exact Triple.at_ok (run_attempt_zoom_of_ok hx) (keep u)
    | error e u => exact Triple.at_ok (run_attempt_zoom_of_error hx) (keep u)
  · cases r with
    | ok _ => exact triple_openReview 0 .txn
    | error e =>
      have hlen := length_description e
      refine .bind (triple_writeIo 0 (Nat.le_trans hlen (by decide))) fun _ => .bind
        (Q := fun _ f => AtWork (ascii (parserGetErrorDescription e)).length f ∧
          f.dev.io.take (ascii (parserGetErrorDescription e)).length = ascii (parserGetErrorDescription e)) (.modify ?_)
        fun _ => .throw ?_
      · rintro f ⟨h, htake⟩
        exact ⟨⟨h.sized, by rw [h.tx, Nat.zero_add], h.asynch⟩, htake⟩
      · rintro f ⟨h, htake⟩
        refine ⟨h.sized, h.asynch, by rw [h.tx, ioApduBufferSize]; omega, ?_⟩
        rw [h.tx, htake, answeredSw_eq (by decide)]
        exact .parserError e

/-- Every command, by the handler it is given to. -/
theorem triple_dispatch (rx : Nat) : Triple (AtWork 0) (dispatch P rx) (fun _ => Left) (Thrown P) := by
  have throw : ∀ {sw : StatusWord}, sw ∈ statusWords → Triple (AtWork 0) (throw sw : Handler Unit) (fun _ => Left) (Thrown P) :=
    fun hsw => .throw fun f h => h.throw_plain hsw
  have pin : ∀ {h : Handler Unit}, Triple (AtWork 0) h (fun _ => Left) (Thrown P) →
      Triple (AtWork 0) (do checkPinValidated P; h) (fun _ => Left) (Thrown P) := by
    intro h hh
    refine .bind (Q := fun _ => AtWork 0) (triple_get_bind fun f => .ite (fun _ => .pure fun _ h => h) fun _ => .throw ?_)
      fun _ => hh
    intro f hf
    refine ⟨hf.sized, hf.asynch, by rw [hf.tx]; decide, ?_⟩
    rw [hf.tx, List.take_zero, List.nil_append]
    exact .plain (Or.inr rfl)
  refine triple_get_bind fun f => .ite (fun _ => throw (by decide)) fun _ => .ite (fun _ => throw (by decide)) fun _ =>
    .ite (fun _ => throw (by decide)) fun _ => .ite (fun _ => triple_handleGetversion) fun _ =>
    .ite (fun _ => pin triple_handleGetAddress) fun _ => .ite (fun _ => pin (triple_handleSign rx)) fun _ =>
    .ite (fun _ => pin (triple_handlePart ?_)) fun _ => .ite (fun _ => pin (triple_handlePart ?_)) fun _ => throw (by decide)
  · intro index s bytes s' hrun
    rw [run_cryptoGetsignaturePart _ _ _ (by decide)] at hrun
    split at hrun
    · split at hrun
      · rename_i hindex
        cases hrun
        exact length_half hindex _
      · cases hrun
    · cases hrun
  · intro index s bytes s' hrun
    rw [run_bind_of_ok (run_get s), cryptoGetpubkeyPart_eq s (by decide)] at hrun
    by_cases hinit : s.slot.initialized = true
    · rw [if_pos hinit] at hrun
      by_cases hindex : index > 1
      · rw [if_pos hindex] at hrun
        cases hrun
      · rw [if_neg hindex] at hrun
        cases hrun
        exact length_half (Nat.not_lt.1 hindex) _
    · rw [if_neg hinit] at hrun
      cases hrun

/-! ## A step -/

/-- What a step leaves and answers. -/
structure Framed (P : Platform) (d : Device) (o : Output) : Prop where
  sized : d.Sized
  answer : ∀ bytes, o = some bytes → IsAnswer P bytes

/-- What an APDU does to the buffer, and what it is answered. -/
theorem receive_framed {d : Device} (h : d.Sized) (a : Apdu) : Framed P (receive P a d).1 (receive P a d).2 := by
  have hwork : AtWork 0 (received d a) := ⟨sized_patch h (by rw [Nat.zero_add]; exact a.2), rfl, rfl⟩
  have htriple := triple_dispatch (P := P) a.1.length
  have hreceive : receive P a d = outcome (finish ((dispatch P a.1.length).run (received d a))) := rfl
  rw [hreceive]
  cases hrun : (dispatch P a.1.length).run (received d a) with
  | ok u f =>
    obtain ⟨hsized, hasynch⟩ := htriple.ok hwork hrun
    refine ⟨hsized, fun bytes ho => ?_⟩
    simp only [finish, outcome, hasynch, if_true] at ho
    cases ho
  | error e f =>
    have ht := htriple.error hwork hrun
    have hio := ht.sized.io
    have hroom := ht.tx
    rw [finish, outcome_catchOther (by rw [hio]; omega) ht.asynch]
    refine ⟨sized_patch ht.sized hroom, ?_⟩
    rintro _ ⟨⟩
    exact ht.answer

/-- A callback that answers behind `n` bytes of the APDU buffer. -/
theorem replyWith_framed {d : Device} (h : d.Sized) (n : Nat) (sw : StatusWord) (hn : n + 2 ≤ ioApduBufferSize)
    (hanswer : IsAnswer P (d.io.take n ++ swBytes sw)) : Framed P (replyWith d n sw).1 (replyWith d n sw).2 := by
  have htake := take_patch (l := d.io) (o := n) (swBytes sw) (by rw [h.io]; omega)
  refine ⟨sized_patch h hn, ?_⟩
  rintro _ ⟨⟩
  rw [show n + 2 = n + (swBytes sw).length from rfl, htake]
  exact hanswer

/-- The same for an approval: the digest has 48 bytes, and the address lies in the buffer. -/
theorem approve_framed {d : Device} (h : d.Sized) (salt : Nat) : Framed P (approve P salt d).1 (approve P salt d).2 := by
  unfold approve
  split
  · exact ⟨h, nofun⟩
  · unfold appSign
    rcases run_cryptoSign P d.upload d.store salt with ⟨digest, sig, hs, hrun⟩ | ⟨-, e, hrun⟩
    · have hlen : digest.length = sha384DigestLen := length_parserGetDigest P.sha384 hs.hashed
      have hsized : ({ d with io := patch d.io 0 digest } : Device).Sized := sized_patch h (by rw [hlen]; decide)
      simp only [hrun]
      refine replyWith_framed ?_ _ _ (by decide) (.data ?_)
      · exact ⟨hsized.io, h.address⟩
      · rw [← hlen, take_patch_zero, hlen]
        decide
    · simp only [hrun]
      refine replyWith_framed ?_ _ _ (by decide) (.plain (Or.inl (by decide)))
      exact ⟨h.io, h.address⟩
  · refine replyWith_framed ?_ _ _ ?_ ?_
    · exact ⟨h.io, h.address⟩
    · rcases h.address with h0 | h43
      · rw [h0]
        decide
      · rw [h43]
        decide
    · rcases h.address with h0 | h43
      · rw [h0]
        exact .plain (Or.inl (by decide))
      · rw [h43]
        refine .data ?_
        rw [List.length_take_of_le (by rw [h.io]; decide)]
        decide

/-- The same for a rejection. -/
theorem reject_framed {d : Device} (h : d.Sized) : Framed P (reject d).1 (reject d).2 := by
  unfold reject
  split
  · exact ⟨h, nofun⟩
  · refine replyWith_framed ?_ _ _ (by decide) (.plain (Or.inl (by decide)))
    exact ⟨List.length_replicate, h.address⟩

/-- One event. -/
theorem step_framed {d : Device} (h : d.Sized) (ev : Event) : Framed P (d.step P ev).1 (d.step P ev).2 := by
  cases ev with
  | apdu a => exact receive_framed h a
  | approve salt => exact approve_framed h salt
  | reject => exact reject_framed h
  | storeInit phrase fails =>
    change Framed P (storeInit P phrase fails d).1 (storeInit P phrase fails d).2
    unfold storeInit
    split
    · exact ⟨h, nofun⟩
    · exact ⟨⟨h.io, h.address⟩, nofun⟩
  | setExpert on => exact ⟨⟨h.io, h.address⟩, nofun⟩
  | setPin validated => exact ⟨⟨h.io, h.address⟩, nofun⟩

end

/-! ## The number of answers -/

/-- An APDU arrived. -/
def isCommand (e : Step) : Bool := match e.input with | .apdu _ => true | _ => false

/-- The app answered. -/
def isAnswered (e : Step) : Bool := e.output.isSome

/-- A command opened a review while another was pending. -/
def supersedes (e : Step) : Bool := isCommand e && !isAnswered e && e.before.review.isSome

/-- The commands that wait for a review. -/
def waiting (d : Device) : Nat := if d.review.isSome then 1 else 0

/-- What a step does to the number of commands that wait. -/
theorem step_waiting (P : Platform) (d : Device) (ev : Event) (e : Step) (he : e = Entry.ofStep (Device.step P) d ev) :
    waiting d + (if isCommand e then 1 else 0) =
      waiting (d.step P ev).1 + (if isAnswered e then 1 else 0) + (if supersedes e then 1 else 0) := by
  subst he
  have hanswered : isAnswered (Entry.ofStep (Device.step P) d ev) = (d.step P ev).2.isSome := rfl
  cases ev with
  | apdu a =>
    have heffect := receive_effect P d a
    have hcommand : isCommand (Entry.ofStep (Device.step P) d (.apdu a)) = true := rfl
    rw [supersedes, hanswered, hcommand, show (Entry.ofStep (Device.step P) d (.apdu a)).before = d from rfl,
      show d.step P (.apdu a) = receive P a d from rfl]
    generalize (receive P a d).1 = d' at heffect ⊢
    generalize (receive P a d).2 = o at heffect ⊢
    -- an answer leaves the review alone, and without one a review is opened
    have hcases : (o.isSome = true ∧ d'.review = d.review) ∨ (o.isSome = false ∧ d'.review.isSome = true) := by
      cases heffect with
      | addressReview => exact Or.inr ⟨rfl, rfl⟩
      | sign _ hs => cases hs with
        | review => exact Or.inr ⟨rfl, rfl⟩
        | _ => exact Or.inl ⟨rfl, rfl⟩
      | _ => exact Or.inl ⟨rfl, rfl⟩
    rcases hcases with ⟨ho, hr⟩ | ⟨ho, hr⟩
    · simp [waiting, ho, hr]
    · cases hd : d.review.isSome <;> simp [waiting, ho, hr, hd]
  | approve salt =>
    have heffect := approve_effect P d salt
    rw [supersedes, hanswered, show isCommand (Entry.ofStep (Device.step P) d (.approve salt)) = false from rfl,
      show d.step P (.approve salt) = approve P salt d from rfl]
    generalize (approve P salt d).1 = d' at heffect ⊢
    generalize (approve P salt d).2 = o at heffect ⊢
    cases heffect with
    | idle hr => simp [waiting]
    | address hr | signed hr | failed hr => simp [waiting, hr]
  | reject =>
    rw [supersedes, hanswered, show isCommand (Entry.ofStep (Device.step P) d .reject) = false from rfl,
      show d.step P .reject = reject d from rfl]
    unfold reject
    cases hr : d.review with
    | none => simp [waiting, hr]
    | some r => simp [waiting, hr, appReject, replyWith]
  | storeInit phrase fails =>
    have hsame : (d.step P (.storeInit phrase fails)).1.review = d.review ∧ (d.step P (.storeInit phrase fails)).2 = none := by
      change (storeInit P phrase fails d).1.review = _ ∧ (storeInit P phrase fails d).2 = none
      unfold storeInit
      split <;> exact ⟨rfl, rfl⟩
    rw [supersedes, hanswered, show isCommand (Entry.ofStep (Device.step P) d (.storeInit phrase fails)) = false from rfl, hsame.2,
      waiting, waiting, hsame.1]
    rfl
  | setExpert on => rfl
  | setPin validated => rfl

end AnswersAux

open AnswersAux

/-- Over every run of a device whose APDU buffer has its size, and which keeps no length of an address or that of one, every
answer has one of the forms of `IsAnswer`; the buffer keeps its size, so that nothing is written outside it, and the length
stays one of the two. -/
theorem answers_framed (P : Platform) {d₀ d : Device} (h₀ : d₀.Sized) {tr : List Step} (hrun : Run (Device.step P) d₀ tr d) :
    d.Sized ∧ ∀ e ∈ tr, ∀ bytes, e.output = some bytes → IsAnswer P bytes := by
  refine hrun.history (fun tr d => d.Sized ∧ ∀ e ∈ tr, ∀ bytes, e.output = some bytes → IsAnswer P bytes) ⟨h₀, nofun⟩ ?_
  rintro tr d ev - ⟨hsized, hanswers⟩
  have hstep := step_framed (P := P) hsized ev
  refine ⟨hstep.sized, fun e he => ?_⟩
  rcases List.mem_append.1 he with he | he
  · exact hanswers e he
  · rw [List.mem_singleton.1 he]
    exact hstep.answer

/-- The device of the tests has such a buffer. -/
theorem sized_demo (bufferSize : Nat) : (Demo.device bufferSize).Sized := ⟨List.length_replicate, Or.inl rfl⟩

/-- The demo transaction is uploaded and signed, and a half of the signature is asked for. -/
theorem answers_framed_demo :
    let events := Demo.upload Demo.tx.message ++ [.approve 0, .apdu (Demo.apdu insGetSig 0 0 [])]
    (final (Device.step Demo.platform) (Demo.device 1000) events).Sized ∧
      ∀ e ∈ trace (Device.step Demo.platform) (Demo.device 1000) events, ∀ bytes, e.output = some bytes →
        IsAnswer Demo.platform bytes :=
  answers_framed Demo.platform (sized_demo 1000) (run_trace _ _ _)

/-- Over every run that starts without a review, the commands are as many as the answers, the commands whose review was replaced
by that of a later command, and the one that waits. -/
theorem commands_answered_once (P : Platform) {d₀ d : Device} (h₀ : d₀.review = none) {tr : List Step}
    (hrun : Run (Device.step P) d₀ tr d) :
    tr.countP isCommand = tr.countP isAnswered + tr.countP supersedes + waiting d := by
  refine hrun.history (fun tr d => tr.countP isCommand = tr.countP isAnswered + tr.countP supersedes + waiting d) ?_ ?_
  · rw [waiting, h₀]
    rfl
  · rintro tr d ev - ih
    have hstep := step_waiting P d ev _ rfl
    simp only [List.countP_append, List.countP_singleton]
    omega

/-- Two requests for the address on the screen: the review of the second replaces that of the first, and the approval answers
it. -/
theorem commands_answered_once_demo :
    let tr := trace (Device.step Demo.platform) (Demo.device 0)
      [.apdu (Demo.apdu insGetAddr 1 0 []), .apdu (Demo.apdu insGetAddr 1 0 []), .approve 0]
    tr.countP isAnswered + tr.countP supersedes = 2 := by
  intro tr
  have hcommands : tr.countP isCommand = 2 := by decide +kernel
  have hwaiting : waiting (final (Device.step Demo.platform) (Demo.device 0)
      [.apdu (Demo.apdu insGetAddr 1 0 []), .apdu (Demo.apdu insGetAddr 1 0 []), .approve 0]) = 0 := by decide +kernel
  have hcount : tr.countP isCommand = _ := commands_answered_once Demo.platform rfl (run_trace _ (Demo.device 0) _)
  omega

end LedgerArweave
