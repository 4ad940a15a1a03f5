import LedgerArweave.Session
import LedgerArweave.Js.Client

/-!
# The host and the device together

How a request of the client becomes an APDU, and the answer of the app the outcome that settles the client's promise. The
transport between them is code outside the repository: `Delivers` says that it hands every APDU and every answer over unchanged
and rejects an answer whose status word the request does not list, while the user approves what a review asks.
-/

namespace LedgerArweave

open Lib

/-! ## Requests and answers -/

/-- The instruction on the wire: a buffer takes `undefined` as a zero. -/
def Request.insByte (request : Request) : UInt8 := request.ins.getD 0

/-- The bytes of a request: the header, which ends in the length of the data, and the data. -/
def Request.bytes (request : Request) : List UInt8 :=
  [request.cla, request.insByte, request.p1, request.p2, UInt8.ofNat request.data.length] ++ request.data

/-- The APDU of a request that fits one. -/
def Request.apdu (request : Request) (h : request.data.length ≤ 255) : Apdu :=
  ⟨request.bytes, by
    simp only [Request.bytes, List.length_append, List.length_cons, List.length_nil, ioApduBufferSize]
    omega⟩

/-- The outcome an answer settles a request with. -/
def outcomeOf (request : Request) (response : Response) : Outcome :=
  if returnCodeOf response ∈ request.statusList then .resolved response
  else .rejected (.statusCode (.number (returnCodeOf response)))

/-- An answer as the client receives it. -/
def answer (body : List UInt8) (sw : StatusWord) : Response := ⟨body ++ swBytes sw, by simp [swBytes]⟩

theorem returnCodeOf_answer (body : List UInt8) {sw : StatusWord} (hsw : sw < 0x10000) :
    returnCodeOf (answer body sw) = sw := by
  have hdrop : (body ++ swBytes sw).drop ((body ++ swBytes sw).length - 2) = swBytes sw := by
    rw [List.length_append, show (swBytes sw).length = 2 from rfl, Nat.add_sub_cancel]
    exact List.drop_left
  unfold returnCodeOf
  rw [answer, hdrop]
  exact ofBe16_be16 hsw

section

variable (P : Platform) {τ : Type}

/-- An APDU and its answer, on a device whose user approves what a review asks. -/
def exchange (salt : Nat) (d : Device) (a : Apdu) : Device × Output :=
  match d.step P (.apdu a) with
  | (d, some answer) => (d, some answer)
  | (d, none) => d.step P (.approve salt)

/-- The transport delivers every APDU to the device, and every answer to the client. An instruction that is `undefined` goes
over the wire as a zero. -/
def Delivers (T : Transport τ) (device : τ → Device) : Prop :=
  ∀ t request (h : request.data.length ≤ 255), ∃ salt,
    device (T t request).1 = (exchange P salt (device t) (request.apdu h)).1 ∧
    ∀ body sw, (exchange P salt (device t) (request.apdu h)).2 = some (body ++ swBytes sw) →
      (T t request).2 = outcomeOf request (answer body sw)

/-- The state of a transport after some requests. -/
def after (T : Transport τ) (t : τ) (requests : List Request) : τ := requests.foldl (fun t request => (T t request).1) t

/-- A cable: a transport that is the device itself. -/
def cable (salt : Nat) : Transport Device := fun d request =>
  if h : request.data.length ≤ 255 then
    let (d, o) := exchange P salt d (request.apdu h)
    match o with
    | some bytes =>
      if h : 2 ≤ bytes.length then (d, outcomeOf request ⟨bytes, h⟩) else (d, .rejected (.printable "no status word"))
    | none => (d, .rejected (.printable "no answer"))
  else (d, .rejected (.printable "the data does not fit an APDU"))

theorem delivers_cable (salt : Nat) : Delivers P (cable P salt) id := by
  intro d request h
  refine ⟨salt, ?_⟩
  simp only [cable, dif_pos h, id]
  generalize exchange P salt d (request.apdu h) = r
  obtain ⟨d', o⟩ := r
  constructor
  · cases o with
    | none => rfl
    | some bytes =>
      simp only
      split <;> rfl
  · intro body sw ho
    obtain rfl : o = some (body ++ swBytes sw) := ho
    exact congrArg Prod.snd (dif_pos (answer body sw).2)

/-! ## Requests that reach their handler -/

section

variable {request : Request} (h : request.data.length ≤ 255)

/-- A request of the class of the app reaches its handler on a device that is initialised and unlocked. -/
theorem Request.reaches {d : Device} (hcla : request.cla = LedgerArweave.cla) (hready : d.store.deviceInitialized = true)
    (hpin : d.pinValidated = true) : Reaches d (request.apdu h) request.insByte := by
  refine ⟨?_, hcla, rfl, hready, hpin⟩
  simp only [Request.apdu, Request.bytes, List.length_append, List.length_cons, List.length_nil, apduMinLength]
  omega

end

/-! ## The exchange of a chunk -/

/-- A chunk answered with success: what it did to the device, and what the answer holds in front of the status word. -/
inductive Accepted (d : Device) (a : Apdu) (salt : Nat) : List UInt8 → Device → Prop where
  | init {io : List UInt8} (hp1 : a.p1 = p1Init) : Accepted d a salt [] { d with io := io, upload := d.upload.started }
  | add {io : List UInt8} (hp1 : a.p1 = p1Add) (hfits : d.upload.Fits P a.data) :
      Accepted d a salt [] { d with io := io, upload := d.upload.append P a.data }
  | last {io digest : List UInt8} {u : Upload} {sig : ByteArr 512} (hp1 : a.p1 = p1Last)
      (hcall : ParseCall P d a (d.upload.append P a.data)) (hfits : d.upload.Fits P a.data)
      (hparse : (txParse P d.store d.expert).run (d.upload.append P a.data) = .ok () u)
      (hs : Signs P u d.store salt digest sig) :
      Accepted d a salt digest
        { d with io := io, upload := u, review := none, store := cryptoStoreSignature sig d.store }

/-- Every chunk is answered, and with success only when it was accepted; an `INIT` always is. -/
theorem exchange_chunk {d : Device} {a : Apdu} (salt : Nat) (hr : Reaches d a insSign) (h2 : a.p2 = 0) :
    ∃ body sw, (exchange P salt d a).2 = some (body ++ swBytes sw) ∧ sw < 0x10000 ∧
      (sw = apduCodeOk → Accepted P d a salt body (exchange P salt d a).1) ∧ (sw = apduCodeOk ∨ a.p1 ≠ p1Init) := by
  obtain ⟨io, u, r, o, heff, hstep⟩ := step_of_reaches_sign P hr
  -- an answer without a review is that of the step
  have answered : ∀ (body : List UInt8) {sw : StatusWord}, o = some (body ++ swBytes sw) → sw < 0x10000 →
      (sw = apduCodeOk → Accepted P d a salt body { d with io := io, upload := u, review := r }) →
      (sw = apduCodeOk ∨ a.p1 ≠ p1Init) →
      ∃ body sw, (exchange P salt d a).2 = some (body ++ swBytes sw) ∧ sw < 0x10000 ∧
        (sw = apduCodeOk → Accepted P d a salt body (exchange P salt d a).1) ∧ (sw = apduCodeOk ∨ a.p1 ≠ p1Init) := by
    intro body sw ho hsw hacc hinit
    subst ho
    unfold exchange
    rw [hstep]
    exact ⟨body, sw, rfl, hsw, hacc, hinit⟩
  -- an error without a text in front of its status word
  have refused : ∀ {sw : StatusWord}, o = some (swBytes sw) → sw < 0x10000 → sw ≠ apduCodeOk → a.p1 ≠ p1Init → _ :=
    fun ho hsw hne hinit => answered [] ho hsw (fun h => absurd h hne) (Or.inr hinit)
  have hadd : a.p1 = p1Add → a.p1 ≠ p1Init := fun h1 => by rw [h1]; decide
  have hlast : a.p1 = p1Last → a.p1 ≠ p1Init := fun h1 => by rw [h1]; decide
  cases heff with
  | badP2 hp2 => exact absurd h2 hp2
  | init _ hp1 => exact answered [] rfl (by decide) (fun _ => .init hp1) (Or.inl rfl)
  | add _ hp1 hfits => exact answered [] rfl (by decide) (fun _ => .add hp1 hfits) (Or.inl rfl)
  | full _ hp1 _ => exact refused rfl (by decide) (by decide) (hp1.elim hadd fun h => hlast h.1)
  | notStarted _ hp1 _ => exact refused rfl (by decide) (by decide) (hlast hp1)
  | badP1 _ hp1 => exact refused rfl (by decide) (by decide) hp1.1
  | parseError _ hp1 _ _ _ => exact answered _ rfl (by decide) nofun (Or.inr (hlast hp1))
  | review _ hp1 hi hfits hparse =>
    have he := approve_effect P { d with io := io, upload := u, review := some .txn } salt
    have hex : exchange P salt d a = approve P salt { d with io := io, upload := u, review := some .txn } := by
      unfold exchange
      rw [hstep]
      rfl
    rw [hex]
    generalize (approve P salt { d with io := io, upload := u, review := some .txn }).1 = d' at he ⊢
    generalize (approve P salt { d with io := io, upload := u, review := some .txn }).2 = o' at he ⊢
    cases he with
    | idle hno => cases hno
    | address hno => cases hno
    | signed _ hs =>
      exact ⟨_, _, rfl, by decide, fun _ => .last hp1 (ParseCall.of P hr h2 hp1 hi hfits) hfits hparse hs, Or.inl rfl⟩
    | failed _ _ => exact ⟨[], apduCodeSignVerifyError, rfl, by decide, nofun, Or.inr (hlast hp1)⟩

/-- A request for a half of the signature, while one waits, is answered with that half, and the second half clears it. -/
theorem exchange_signature {d : Device} {a : Apdu} (salt : Nat) (hr : Reaches d a insGetSig)
    (hdata : a.byte offsetDataLen = 0) (hset : d.store.signatureSet = 1) (hindex : a.p2.toNat ≤ 1) :
    ∃ io, exchange P salt d a =
      ({ d with io := io, store := if a.p2.toNat = 1 then clearSignature d.store else d.store },
        some (slice (d.store.nCryptoSig d.store.slotInUse).1 (a.p2.toNat * rsaModulusHalve) rsaModulusHalve ++
          swBytes apduCodeOk)) := by
  obtain ⟨io, hstep⟩ := step_of_reaches_getSig P hr
  rw [if_pos ⟨hdata, hset, hindex⟩] at hstep
  exact ⟨io, by rw [exchange, hstep]⟩

end

end LedgerArweave
