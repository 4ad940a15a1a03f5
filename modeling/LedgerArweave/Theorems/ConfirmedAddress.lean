import LedgerArweave.Addr
import LedgerArweave.Theorems.Review

/-!
# The confirmed address

While an address is reviewed it lives in the APDU buffer alone, and every APDU that arrives is received in that buffer. The
pages of the review and the reply are the address of the key in use as long as no APDU arrives before the user answers, except
one that opens a review itself.
-/

namespace LedgerArweave

open Lib

section

variable (P : Platform)

/-- The review of the address shows the address of the key in use, and an approval replies it. -/
structure ShowsAddress (d : Device) : Prop where
  page : ∀ displayIdx outKeyLen outValLen pageIdx o out,
    (addrGetItem P d.io displayIdx outKeyLen outValLen pageIdx).run o = .ok () out →
      out.val = (P.pageStringExt outValLen (addressOf P d.store.slot.rsaPub) pageIdx).1 ∧
        out.pageCount = (P.pageStringExt outValLen (addressOf P d.store.slot.rsaPub) pageIdx).2
  reply : ∀ salt, (approve P salt d).2 = some (addressOf P d.store.slot.rsaPub ++ swBytes apduCodeOk)

/-- A `GET_ADDR` command that asks for the review of the address. -/
structure AsksForReview (d : Device) (a : Apdu) : Prop where
  reaches : Reaches d a insGetAddr
  noData : a.byte offsetDataLen = 0
  confirm : a.p1 ≠ 0

/-- While the review of an address is pending, no APDU arrives but one that opens a review. -/
def LeavesBuffer (e : Step) : Prop :=
  e.before.review = some .address → ∀ a, e.input = .apdu a → AsksForReview e.before a ∨ OpensReview P e

namespace ConfirmedAddressAux

/-- The APDU buffer holds the address while its review is pending. -/
structure InBuffer (d : Device) : Prop where
  ready : d.store.deviceInitialized = true
  key : d.store.slot.initialized = true
  io : d.io = patch (List.replicate ioApduBufferSize 0) 0 (addressOf P d.store.slot.rsaPub)
  length : d.actionAddrResponseLen = addrStrLen

theorem showsAddress_of_inBuffer {d : Device} (hr : d.review = some .address) (h : InBuffer P d) : ShowsAddress P d := by
  have haddr := length_addressOf P d.store.slot.rsaPub
  have hstring : cString d.io = addressOf P d.store.slot.rsaPub := by
    rw [h.io, patch, List.take_zero, List.nil_append, List.drop_replicate, cString_append_replicate]
    exact cString_eq_self (zero_not_mem_b64urlText _)
  constructor
  · intro displayIdx outKeyLen outValLen pageIdx o out hrun
    obtain ⟨-, hval, hcount⟩ := run_addrGetItem_ok P hrun
    rw [← hstring]
    exact ⟨hval, hcount⟩
  · intro salt
    have hle : addrStrLen ≤ d.io.length := by
      have := le_length_patch (List.replicate ioApduBufferSize 0) (addressOf P d.store.slot.rsaPub)
      rw [h.io, ← haddr]
      exact this
    have htake : d.io.take addrStrLen = addressOf P d.store.slot.rsaPub := by
      rw [h.io, ← haddr, take_patch_zero]
    unfold approve
    rw [hr]
    simp only [appReplyAddress, replyWith, h.length]
    rw [← htake]
    exact congrArg some (take_patch (swBytes apduCodeOk) hle)

/-- A `GET_ADDR` command that asks for the review opens it, also while one is pending. -/
theorem receive_asksForReview {d : Device} {a : Apdu} (h : AsksForReview d a) (hkey : d.store.slot.initialized = true) :
    InBuffer P (receive P a d).1 := by
  have hlc : (received d a).dev.io.getD offsetDataLen 0 = a.byte offsetDataLen :=
    getD_patch (Nat.lt_of_lt_of_le (by decide) h.reaches.length)
  have hp1 : (received d a).dev.io.getD offsetP1 0 = a.p1 :=
    getD_patch (Nat.lt_of_lt_of_le (by decide) h.reaches.length)
  have hfill : cryptoFillAddress P d.store (ioApduBufferSize - 2) = .ok (addressOf P d.store.slot.rsaPub) := by
    rw [cryptoFillAddress_eq P d.store (by decide), if_pos hkey]
  have hrun : (handlerOf P a.1.length insGetAddr).run (received d a) = _ := run_handleGetAddress P (received d a)
  rw [hlc, hp1, show (received d a).dev.store = d.store from rfl, if_neg (not_not.2 h.noData), hfill] at hrun
  simp only [if_pos h.confirm] at hrun
  rw [receive_of_reaches P h.reaches (by decide), hrun]
  exact ⟨h.reaches.ready, hkey, rfl, rfl⟩

/-- A step that opens the review of a transaction puts it in the place of the review of the address. -/
theorem review_of_opensReview {d : Device} {a : Apdu} (h : OpensReview P (Entry.ofStep (Device.step P) d (.apdu a))) :
    (receive P a d).1.review = some .txn := by
  have hreaches : Reaches d a insSign := by
    obtain ⟨b, u, u', hb, hcall, -⟩ := h
    cases hb
    exact hcall.1
  obtain ⟨h2, h1, hi, hfits, u, hparse⟩ := ReviewAux.opensReview_apdu h
  obtain ⟨io, u', r, o, hs, heq⟩ := step_of_reaches_sign P hreaches
  change (d.step P (.apdu a)).1.review = some .txn
  rw [heq]
  cases hs with
  | badP2 hp2 => exact absurd h2 hp2
  | init _ hp1 => exact absurd (h1.symm.trans hp1) (by decide)
  | add _ hp1 => exact absurd (h1.symm.trans hp1) (by decide)
  | full _ _ hfull => exact absurd hfits hfull
  | notStarted _ _ hi' => exact absurd (hi.symm.trans hi') (by decide)
  | parseError _ _ _ _ hparse' =>
    rw [hparse] at hparse'
    cases hparse'
  | review => rfl
  | badP1 _ hp1 => exact absurd h1 hp1.2.2

/-- A command opens the review of the address only when its buffer holds the address then. -/
theorem receive_inBuffer {d : Device} {a : Apdu} (hr : d.review ≠ some .address)
    (hr' : (receive P a d).1.review = some .address) : InBuffer P (receive P a d).1 := by
  have he := receive_effect P d a
  generalize (receive P a d).1 = d' at he hr' ⊢
  generalize (receive P a d).2 = o at he
  cases he with
  | @addressReview addrStr h hlc hp1 ha =>
    have hkey : d.store.slot.initialized = true := by
      by_contra hno
      rw [cryptoFillAddress_eq P d.store (by decide), if_neg hno] at ha
      cases ha
    rw [cryptoFillAddress_eq P d.store (by decide), if_pos hkey] at ha
    cases ha
    exact ⟨h.ready, hkey, rfl, rfl⟩
  | sign _ hs => cases hs <;> first | exact absurd hr' hr | cases hr'
  | _ => exact absurd hr' hr

/-- What one step keeps. -/
theorem inBuffer_step {d : Device} (h : d.review = some .address → InBuffer P d) (ev : Event)
    (hleave : LeavesBuffer P (Entry.ofStep (Device.step P) d ev)) (hr' : (d.step P ev).1.review = some .address) :
    InBuffer P (d.step P ev).1 := by
  cases ev with
  | apdu a =>
    by_cases hr : d.review = some .address
    · rcases hleave hr a rfl with hasks | hopens
      · exact receive_asksForReview P hasks (h hr).key
      · have htxn := review_of_opensReview P hopens
        rw [show (d.step P (.apdu a)).1.review = (receive P a d).1.review from rfl, htxn] at hr'
        cases hr'
    · exact receive_inBuffer P hr hr'
  | approve salt =>
    change (approve P salt d).1.review = some .address at hr'
    have he := approve_effect P d salt
    generalize (approve P salt d).1 = d' at he hr'
    generalize (approve P salt d).2 = o at he
    cases he with
    | idle hr =>
      rw [hr] at hr'
      cases hr'
    | _ => cases hr'
  | reject =>
    change (reject d).1.review = some .address at hr'
    rcases reject_effect d with ⟨hr, he⟩ | ⟨io, he⟩
    · rw [he, hr] at hr'
      cases hr'
    · rw [he] at hr'
      cases hr'
  | storeInit phrase fails =>
    change (storeInit P phrase fails d).1.review = some .address at hr'
    change InBuffer P (storeInit P phrase fails d).1
    unfold storeInit at hr' ⊢
    split at hr'
    · rename_i hready
      rw [if_pos hready]
      exact h hr'
    · rename_i hready
      exact absurd (h hr').ready hready
  | setExpert on =>
    have hb := h hr'
    exact ⟨hb.ready, hb.key, hb.io, hb.length⟩
  | setPin validated =>
    have hb := h hr'
    exact ⟨hb.ready, hb.key, hb.io, hb.length⟩

end ConfirmedAddressAux

open ConfirmedAddressAux

/-- In every run from a boot in which no APDU arrives while the review of an address is pending, except one that opens a
review itself, every page shown and the reply of an approval are the address of the key in use. -/
theorem confirmed_address (d₀ : Device) (h₀ : d₀.Booted) (tr : List Step) (d : Device) (h : Run (Device.step P) d₀ tr d)
    (hleave : ∀ e ∈ tr, LeavesBuffer P e) (hr : d.review = some .address) : ShowsAddress P d := by
  have hI := h.history_of (fun _ d => d.review = some .address → InBuffer P d)
    (fun hr => by rw [h₀.review] at hr; cases hr) (fun _ _ ev _ hin hev hr => inBuffer_step P hin ev hev hr) hleave
  exact showsAddress_of_inBuffer P hr (hI hr)

end

/-- A review of the address that no APDU disturbs. -/
theorem confirmed_address_undisturbed :
    let d := final (Device.step Demo.platform) (Demo.device 0) [.apdu (Demo.apdu insGetAddr 1 0 [])]
    d.review = some .address ∧ ShowsAddress Demo.platform d := by
  have hr : (final (Device.step Demo.platform) (Demo.device 0) [.apdu (Demo.apdu insGetAddr 1 0 [])]).review =
      some .address := by decide +kernel
  refine ⟨hr, confirmed_address Demo.platform (Demo.device 0) (Demo.device_booted 0) _ _ (run_trace _ _ _) ?_ hr⟩
  intro e he hpending
  cases List.mem_singleton.1 he
  cases hpending

/-- A host that asks for the version while the address is reviewed: the screen shows an empty text, and the approval replies
the bytes of the version. -/
theorem not_confirmed_address :
    let d := final (Device.step Demo.platform) (Demo.device 0)
      [.apdu (Demo.apdu insGetAddr 1 0 []), .apdu (Demo.apdu insGetVersion 0 0 [])]
    d.review = some .address ∧ cString d.io = [] ∧ ¬ShowsAddress Demo.platform d := by
  refine ⟨by decide +kernel, by decide +kernel, ?_⟩
  intro h
  have hreply := h.reply 0
  revert hreply
  decide +kernel

end LedgerArweave
