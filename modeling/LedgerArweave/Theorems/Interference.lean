import LedgerArweave.Exchanges
import LedgerArweave.Lib.Purge

/-!
# Queries do not interfere

The commands that ask for the version, the key or the address may come between any two steps of an upload, of a review or of the
collection of a signature. They write into the APDU buffer, which every command writes anew and which one answer alone depends
on: the reply to a confirmed address. All other answers of a run are what they are without the queries.
-/

namespace LedgerArweave

open Lib

/-- A command that asks and changes nothing: too short to be one, or neither `SIGN` nor `GET_SIG` nor a `GET_ADDR` that is to be
confirmed. -/
def Apdu.Query (a : Apdu) : Prop :=
  a.1.length < apduMinLength ∨
    (a.byte offsetIns ≠ insSign ∧ a.byte offsetIns ≠ insGetSig ∧ (a.byte offsetIns = insGetAddr → a.p1 = 0))

instance (a : Apdu) : Decidable a.Query := inferInstanceAs (Decidable (_ ∨ _))

/-- An event that is a query. -/
def Event.Query : Event → Prop
  | .apdu a => a.Query
  | _ => False

instance : DecidablePred Event.Query := fun ev =>
  match ev with
  | .apdu a => inferInstanceAs (Decidable a.Query)
  | .approve _ | .reject | .storeInit .. | .setExpert _ | .setPin _ => inferInstanceAs (Decidable False)

/-- What a step shows: its answer, but for the reply to a confirmed address. -/
def shownAnswer (e : Step) : Option Output :=
  match e.input, e.before.review with
  | .approve _, some .address => none
  | _, _ => some e.output

/-- Two devices that differ at most in the APDU buffer and in `action_addrResponseLen`, the length of the address in it. -/
structure SameApp (d d' : Device) : Prop where
  upload : d.upload = d'.upload
  store : d.store = d'.store
  review : d.review = d'.review
  expert : d.expert = d'.expert
  pin : d.pinValidated = d'.pinValidated

namespace InterferenceAux

open ExchangeAux

section

variable (P : Platform) {d d' : Device} {a : Apdu}

/-! ## A query -/

theorem receive_query (h : a.Query) : ∃ io n, (receive P a d).1 = { d with io := io, actionAddrResponseLen := n } := by
  have reached : ∀ {ins}, Reaches d a ins → ins ≠ insSign ∧ ins ≠ insGetSig ∧ (ins = insGetAddr → a.p1 = 0) := by
    intro ins hr
    rcases h with h | h
    · exact absurd hr.length (Nat.not_le.2 h)
    · rw [hr.ins] at h
      exact h
  have he := receive_effect P d a
  generalize (receive P a d).1 = d' at he ⊢
  generalize (receive P a d).2 = o at he
  cases he with
  | addressReview hr _ hp1 => exact absurd ((reached hr).2.2 rfl) hp1
  | sig hr => exact absurd rfl (reached hr).2.1
  | sign hr => exact absurd rfl (reached hr).1
  | _ => exact ⟨_, _, rfl⟩

/-! ## The other commands -/

/-- What a `SIGN` command does, as a function of the state it finds. -/
def signOutcome (d : Device) (a : Apdu) : Upload × Option Review × Output :=
  let full := ({ d.upload.append P a.data with txInitialized := false }, d.review, some (swBytes apduCodeOutputBufferTooSmall))
  if a.p2 ≠ 0 then (d.upload, d.review, some (swBytes apduCodeInvalidP1P2))
  else if a.p1 = p1Init then (d.upload.started, d.review, some (swBytes apduCodeOk))
  else if a.p1 = p1Add then
    if d.upload.Fits P a.data then (d.upload.append P a.data, d.review, some (swBytes apduCodeOk)) else full
  else if a.p1 = p1Last then
    if d.upload.txInitialized = false then (d.upload, d.review, some (swBytes apduCodeTxNotInitialized))
    else if d.upload.Fits P a.data then
      match (txParse P d.store d.expert).run (d.upload.append P a.data) with
      | .error e u => (u, d.review, some (ascii (parserGetErrorDescription e) ++ swBytes apduCodeDataInvalid))
      | .ok _ u => (u, some .txn, none)
    else full
  else ({ d.upload with txInitialized := false }, d.review, some (swBytes apduCodeInvalidP1P2))

theorem signOutcome_eq {u : Upload} {r : Option Review} {o : Output} (h : SignEffect P d a u r o) :
    signOutcome P d a = (u, r, o) := by
  have hadd : p1Add ≠ p1Init := by decide
  have hlast : p1Last ≠ p1Init ∧ p1Last ≠ p1Add := by decide
  unfold signOutcome
  cases h with
  | badP2 h2 => exact if_pos h2
  | init h2 h1 => rw [if_neg (not_not.2 h2), if_pos h1]
  | add h2 h1 hfits => rw [if_neg (not_not.2 h2), h1, if_neg hadd, if_pos rfl, if_pos hfits]
  | full h2 h1 hfits =>
    rcases h1 with h1 | ⟨h1, hi⟩
    · rw [if_neg (not_not.2 h2), h1, if_neg hadd, if_pos rfl, if_neg hfits]
    · rw [if_neg (not_not.2 h2), h1, if_neg hlast.1, if_neg hlast.2, if_pos rfl, if_neg (by rw [hi]; decide), if_neg hfits]
  | notStarted h2 h1 hi => rw [if_neg (not_not.2 h2), h1, if_neg hlast.1, if_neg hlast.2, if_pos rfl, if_pos hi]
  | parseError h2 h1 hi hfits hparse =>
    rw [if_neg (not_not.2 h2), h1, if_neg hlast.1, if_neg hlast.2, if_pos rfl, if_neg (by rw [hi]; decide), if_pos hfits,
      hparse]
  | review h2 h1 hi hfits hparse =>
    rw [if_neg (not_not.2 h2), h1, if_neg hlast.1, if_neg hlast.2, if_pos rfl, if_neg (by rw [hi]; decide), if_pos hfits,
      hparse]
  | badP1 h2 h1 => rw [if_neg (not_not.2 h2), if_neg h1.1, if_neg h1.2.1, if_neg h1.2.2]

/-- Two steps that answer the same and leave the same app. -/
def Agree (r r' : Device × Output) : Prop := r.2 = r'.2 ∧ SameApp r.1 r'.1

variable (h : SameApp d d')
include h

theorem agree_sign (hr : Reaches d a insSign) (hr' : Reaches d' a insSign) : Agree (receive P a d) (receive P a d') := by
  obtain ⟨io, u, r, o, heff, hstep⟩ := step_of_reaches_sign P hr
  obtain ⟨io', u', r', o', heff', hstep'⟩ := step_of_reaches_sign P hr'
  have hstep : receive P a d = ({ d with io := io, upload := u, review := r }, o) := hstep
  have hstep' : receive P a d' = ({ d' with io := io', upload := u', review := r' }, o') := hstep'
  have heq : signOutcome P d a = signOutcome P d' a := by
    unfold signOutcome
    rw [h.upload, h.store, h.review, h.expert]
  rw [signOutcome_eq P heff, signOutcome_eq P heff'] at heq
  cases heq
  rw [hstep, hstep']
  exact ⟨rfl, rfl, h.store, rfl, h.expert, h.pin⟩

theorem agree_getSig (hr : Reaches d a insGetSig) (hr' : Reaches d' a insGetSig) :
    Agree (receive P a d) (receive P a d') := by
  obtain ⟨io, hstep⟩ := step_of_reaches_getSig P hr
  obtain ⟨io', hstep'⟩ := step_of_reaches_getSig P hr'
  change receive P a d = _ at hstep
  change receive P a d' = _ at hstep'
  rw [hstep, hstep', h.store]
  split
  · exact ⟨rfl, h.upload, rfl, h.review, h.expert, h.pin⟩
  · exact ⟨rfl, h.upload, rfl, h.review, h.expert, h.pin⟩

/-- A `GET_ADDR` that is to be confirmed: its review opens, or it is refused. -/
theorem agree_getAddr (hr : Reaches d a insGetAddr) (hr' : Reaches d' a insGetAddr) (hp1 : a.p1 ≠ 0) :
    Agree (receive P a d) (receive P a d') := by
  rw [receive_getAddr P hr, receive_getAddr P hr', h.store]
  by_cases hdata : a.byte offsetDataLen ≠ 0
  · rw [if_pos hdata, if_pos hdata]
    simp only [finish]
    rw [outcome_catchOther_zero rfl rfl, outcome_catchOther_zero rfl rfl]
    exact ⟨rfl, h.upload, h.store, h.review, h.expert, h.pin⟩
  · rw [if_neg hdata, if_neg hdata]
    cases cryptoFillAddress P d'.store (ioApduBufferSize - 2) with
    | error e =>
      simp only [finish]
      rw [outcome_catchOther_zero rfl rfl, outcome_catchOther_zero rfl rfl]
      exact ⟨rfl, h.upload, rfl, h.review, h.expert, h.pin⟩
    | ok addrStr =>
      simp only [if_pos hp1]
      exact ⟨rfl, h.upload, rfl, rfl, h.expert, h.pin⟩

/-- A command that is no query. -/
theorem agree_apdu (hq : ¬a.Query) : Agree (receive P a d) (receive P a d') := by
  obtain ⟨hlen, hins⟩ := not_or.1 hq
  have hlen : apduMinLength ≤ a.1.length := Nat.not_lt.1 hlen
  have hver : a.byte offsetIns ≠ insGetVersion := by
    intro hver
    rw [hver] at hins
    exact hins ⟨by decide, by decide, fun h => absurd h (by decide)⟩
  have hchecks : checksThrow P d' a = checksThrow P d a := by
    unfold checksThrow
    rw [h.store, h.pin]
  cases hthrow : checksThrow P d a with
  | some e =>
    obtain ⟨io, hstep⟩ := receive_of_throw P hlen hthrow
    obtain ⟨io', hstep'⟩ := receive_of_throw P hlen (hchecks.trans hthrow)
    rw [hstep, hstep']
    exact ⟨rfl, h.upload, h.store, h.review, h.expert, h.pin⟩
  | none =>
    have hr := reaches_of_checks P hlen hver hthrow
    have hr' := reaches_of_checks P hlen hver (hchecks.trans hthrow)
    by_cases h1 : a.byte offsetIns = insSign
    · rw [h1] at hr hr'
      exact agree_sign P h hr hr'
    by_cases h2 : a.byte offsetIns = insGetSig
    · rw [h2] at hr hr'
      exact agree_getSig P h hr hr'
    have h3 : a.byte offsetIns = insGetAddr ∧ a.p1 ≠ 0 := by
      simpa [h1, h2] using hins
    rw [h3.1] at hr hr'
    exact agree_getAddr P h hr hr' h3.2

/-! ## The screen -/

omit h in
/-- The padding apart, a signature is settled by the upload and the flash. -/
theorem signs_inj {u : Upload} {s : CryptoStore} {salt : Nat} {digest digest' : List UInt8} {sig sig' : ByteArr 512}
    (hs : Signs P u s salt digest sig) (hs' : Signs P u s salt digest' sig') : digest = digest' ∧ sig = sig' := by
  obtain rfl : digest = digest' := Except.ok.inj (hs.hashed.symm.trans hs'.hashed)
  exact ⟨rfl, Option.some.inj (hs.signed.symm.trans hs'.signed)⟩

/-- An approval that does not confirm an address. -/
theorem agree_approve (salt : Nat) (hr : d.review ≠ some .address) : Agree (approve P salt d) (approve P salt d') := by
  have he := approve_effect P d salt
  have he' := approve_effect P d' salt
  have hr' := h.review
  generalize approve P salt d = r at he ⊢
  generalize approve P salt d' = r' at he' ⊢
  obtain ⟨e, o⟩ := r
  obtain ⟨e', o'⟩ := r'
  cases he with
  | address hadr => exact absurd hadr hr
  | idle hnone =>
    cases he' with
    | idle => exact ⟨rfl, h⟩
    | address h' | signed h' | failed h' => exact absurd ((hnone.symm.trans hr').trans h') nofun
  | signed htxn hs =>
    rw [h.upload, h.store] at hs
    cases he' with
    | signed _ hs' =>
      obtain ⟨rfl, rfl⟩ := signs_inj P hs hs'
      exact ⟨rfl, h.upload, by rw [h.store], rfl, h.expert, h.pin⟩
    | failed _ hno => exact absurd hs (hno _ _)
    | idle h' | address h' => exact absurd ((htxn.symm.trans hr').trans h') nofun
  | failed htxn hno =>
    rw [h.upload, h.store] at hno
    cases he' with
    | failed => exact ⟨rfl, h.upload, h.store, rfl, h.expert, h.pin⟩
    | signed _ hs' => exact absurd hs' (hno _ _)
    | idle h' | address h' => exact absurd ((htxn.symm.trans hr').trans h') nofun

theorem agree_reject : Agree (reject d) (reject d') := by
  unfold reject
  rw [← h.review]
  cases d.review with
  | none => exact ⟨rfl, h⟩
  | some r => exact ⟨rfl, h.upload, h.store, rfl, h.expert, h.pin⟩

/-- An event that is no query. -/
theorem agree_step {ev : Event} (hq : ¬ev.Query) (hr : (∃ salt, ev = .approve salt) → d.review ≠ some .address) :
    Agree (d.step P ev) (d'.step P ev) := by
  cases ev with
  | apdu a => exact agree_apdu P h hq
  | approve salt => exact agree_approve P h salt (hr ⟨salt, rfl⟩)
  | reject => exact agree_reject h
  | storeInit phrase fails =>
    change Agree (storeInit P phrase fails d) (storeInit P phrase fails d')
    unfold storeInit
    rw [← h.store]
    split
    · exact ⟨rfl, h⟩
    · exact ⟨rfl, h.upload, rfl, h.review, h.expert, h.pin⟩
  | setExpert on => exact ⟨rfl, h.upload, h.store, h.review, rfl, h.pin⟩
  | setPin validated => exact ⟨rfl, h.upload, h.store, h.review, h.expert, rfl⟩

end

/-- A confirmed address closes its review, whatever the APDU buffer holds. -/
theorem sameApp_approve {P : Platform} {d d' : Device} (h : SameApp d d') (salt : Nat) :
    SameApp (approve P salt d).1 (approve P salt d').1 := by
  by_cases hr : d.review = some .address
  · have hr' : d'.review = some .address := h.review.symm.trans hr
    unfold approve
    rw [hr, hr']
    exact ⟨h.upload, h.store, rfl, h.expert, h.pin⟩
  · exact (agree_approve P h salt hr).2

/-- The conditions on one step. -/
theorem unwinding (P : Platform) : Unwinding (Device.step P) SameApp Event.Query shownAnswer where
  quiet d d' ev hq h := by
    cases ev with
    | apdu a =>
      obtain ⟨io, n, heq⟩ := receive_query P (d := d) hq
      change SameApp (receive P a d).1 d'
      rw [heq]
      exact ⟨h.upload, h.store, h.review, h.expert, h.pin⟩
    | _ => exact hq.elim
  other d d' ev hq h := by
    cases ev with
    | approve salt => exact sameApp_approve h salt
    | _ => exact (agree_step P h hq nofun).2
  shown d d' ev hq h := by
    by_cases hadr : (∃ salt, ev = .approve salt) ∧ d.review = some .address
    · obtain ⟨⟨salt, rfl⟩, hr⟩ := hadr
      have hr' : d'.review = some .address := h.review.symm.trans hr
      simp only [shownAnswer, Entry.ofStep, hr, hr']
    · have hout := (agree_step P h hq fun hsalt hr => hadr ⟨hsalt, hr⟩).1
      simp only [shownAnswer, Entry.ofStep, hout, h.review]

end InterferenceAux

open InterferenceAux

/-- From every state, and for every order of events: the answers of the other steps are what they are without the queries, and
in the end the app is in the same state but for the APDU buffer and the length of the address in it. -/
theorem queries_do_not_interfere (P : Platform) (d : Device) (events : List Event) :
    view Event.Query shownAnswer (trace (Device.step P) d events) =
        view Event.Query shownAnswer (trace (Device.step P) d (purged Event.Query events)) ∧
      SameApp (final (Device.step P) d events) (final (Device.step P) d (purged Event.Query events)) :=
  (unwinding P).purge events ⟨rfl, rfl, rfl, rfl, rfl⟩

end LedgerArweave
