import LedgerArweave.Session
import LedgerArweave.Demo

/-!
# The signature mailbox

A signature waits in flash from the approval that made it until its second half is handed out: `signature_set` is up exactly
when a signing was not yet followed by that.
-/

namespace LedgerArweave

open Lib

section

variable (P : Platform)

/-- An approval made `crypto_sign` succeed, with this digest and this signature. -/
def SignedAs (e : Step) (digest : List UInt8) (sig : ByteArr 512) : Prop :=
  ∃ salt, e.input = .approve salt ∧ e.before.review = some .txn ∧ Signs P e.before.upload e.before.store salt digest sig

/-- An approval made `crypto_sign` succeed. -/
def SignedStep (e : Step) : Prop := ∃ digest sig, SignedAs P e digest sig

/-- The second half of a signature was handed out. -/
def HandedOut (e : Step) : Prop :=
  ∃ a, e.input = .apdu a ∧ Reaches e.before a insGetSig ∧ a.p2 = 1 ∧ Answered apduCodeOk e.output

/-- A signing that nothing overtook: no other signing came after it, and its second half was not handed out. -/
def Waits (digest : List UInt8) (sig : ByteArr 512) (tr : List Step) : Prop :=
  Since (fun x => SignedAs P x digest sig ∧ x.output = some (digest ++ swBytes apduCodeOk))
    (fun x => SignedStep P x ∨ HandedOut x) tr

namespace MailboxAux

/-- What a step does to the signature: an approval sets it, the second half handed out clears it, and every other step leaves
it, and on a device that is initialised the whole key store. -/
inductive StoreEffect (e : Step) : Prop where
  | signed {digest : List UInt8} {sig : ByteArr 512} (hs : SignedAs P e digest sig) (hh : ¬HandedOut e)
      (hstore : e.after.store = cryptoStoreSignature sig e.before.store) (ho : e.output = some (digest ++ swBytes apduCodeOk))
  | handedOut (hs : ¬SignedStep P e) (hh : HandedOut e) (hset : e.before.store.signatureSet = 1)
      (hstore : e.after.store = clearSignature e.before.store)
  | same (hs : ¬SignedStep P e) (hh : ¬HandedOut e) (hstore : e.after.store = e.before.store)
  | init (hs : ¬SignedStep P e) (hh : ¬HandedOut e) (hi : e.before.store.deviceInitialized = false)
      (hstore : e.after.store.signatureSet = e.before.store.signatureSet ∧
        e.after.store.nCryptoSig = e.before.store.nCryptoSig)

theorem not_signed_apdu {d d' : Device} {a : Apdu} {o : Output} : ¬SignedStep P ⟨d, .apdu a, o, d'⟩ := by
  rintro ⟨digest, sig, salt, h, -⟩
  cases h

/-- A step that receives no APDU hands nothing out. -/
theorem not_handedOut {e : Step} (h : ∀ a, e.input ≠ .apdu a) : ¬HandedOut e := fun ⟨a, ha, _⟩ => h a ha

/-- The key store after an event that starts no signing. -/
theorem not_signed {e : Step} (h : ∀ salt, e.input ≠ .approve salt) : ¬SignedStep P e :=
  fun ⟨_, _, salt, hs, _⟩ => h salt hs

theorem storeEffect_apdu (d : Device) (a : Apdu) : StoreEffect P (Entry.ofStep (Device.step P) d (.apdu a)) := by
  have hs : ¬SignedStep P (Entry.ofStep (Device.step P) d (.apdu a)) := not_signed_apdu P
  by_cases hr : Reaches d a insGetSig
  · obtain ⟨io, hstep⟩ := step_of_reaches_getSig P hr
    have hout : (Entry.ofStep (Device.step P) d (.apdu a)).output = (d.step P (.apdu a)).2 := rfl
    have haft : (Entry.ofStep (Device.step P) d (.apdu a)).after = (d.step P (.apdu a)).1 := rfl
    by_cases hc : a.byte offsetDataLen = 0 ∧ d.store.signatureSet = 1 ∧ a.p2.toNat ≤ 1
    · rw [if_pos hc] at hstep
      rw [hstep] at hout haft
      by_cases h1 : a.p2.toNat = 1
      · refine .handedOut hs ⟨a, rfl, hr, UInt8.toNat.inj h1, ?_⟩ hc.2.1 ?_
        · rw [hout]
          exact ⟨_, rfl⟩
        · rw [haft]
          simp only [if_pos h1]
          rfl
      · refine .same hs ?_ ?_
        · rintro ⟨b, hb, -, h2, -⟩
          cases hb
          exact h1 (by rw [h2]; rfl)
        · rw [haft]
          simp only [if_neg h1]
          rfl
    · rw [if_neg hc] at hstep
      rw [hstep] at hout haft
      refine .same hs ?_ (by rw [haft]; rfl)
      rintro ⟨b, -, -, -, hans⟩
      rw [hout] at hans
      revert hans
      split
      · exact Answered.not_ok (by decide) (by decide)
      · exact Answered.not_ok (by decide) (by decide)
  · refine .same hs ?_ (step_store_of_not_getSig P hr)
    rintro ⟨b, hb, hreach, -⟩
    cases hb
    exact hr hreach

theorem storeEffect (d : Device) (ev : Event) : StoreEffect P (Entry.ofStep (Device.step P) d ev) := by
  cases ev with
  | apdu a => exact storeEffect_apdu P d a
  | approve salt =>
    have hh : ¬HandedOut (Entry.ofStep (Device.step P) d (.approve salt)) := not_handedOut nofun
    have he := approve_effect P d salt
    have hout : (Entry.ofStep (Device.step P) d (.approve salt)).output = (approve P salt d).2 := rfl
    have haft : (Entry.ofStep (Device.step P) d (.approve salt)).after = (approve P salt d).1 := rfl
    generalize (approve P salt d).1 = d' at he haft
    generalize (approve P salt d).2 = o at he hout
    cases he with
    | signed hr hs => exact .signed ⟨salt, rfl, hr, hs⟩ hh (by rw [haft]; rfl) hout
    | idle hr =>
      refine .same ?_ hh (by rw [haft]; rfl)
      rintro ⟨digest, sig, s, -, hr', -⟩
      exact absurd (hr.symm.trans hr') nofun
    | address hr =>
      refine .same ?_ hh (by rw [haft]; rfl)
      rintro ⟨digest, sig, s, -, hr', -⟩
      exact absurd (hr.symm.trans hr') nofun
    | failed hr hs =>
      refine .same ?_ hh (by rw [haft]; rfl)
      rintro ⟨digest, sig, s, hin, -, hs'⟩
      cases hin
      exact hs digest sig hs'
  | reject =>
    refine .same (not_signed P nofun) (not_handedOut nofun) ?_
    change (reject d).1.store = d.store
    rcases reject_effect d with ⟨-, h⟩ | ⟨io, h⟩ <;> rw [h]
  | storeInit phrase fails =>
    have hs : ¬SignedStep P (Entry.ofStep (Device.step P) d (.storeInit phrase fails)) := not_signed P nofun
    have hh : ¬HandedOut (Entry.ofStep (Device.step P) d (.storeInit phrase fails)) := not_handedOut nofun
    have haft : (Entry.ofStep (Device.step P) d (.storeInit phrase fails)).after = (storeInit P phrase fails d).1 := rfl
    cases hi : d.store.deviceInitialized with
    | true =>
      refine .same hs hh ?_
      rw [haft, storeInit, if_pos hi]
      rfl
    | false =>
      refine .init hs hh hi ?_
      rw [haft, storeInit, if_neg (by rw [hi]; nofun)]
      exact storeInit_signature P phrase fails d.store
  | setExpert on => exact .same (not_signed P nofun) (not_handedOut nofun) rfl
  | setPin validated => exact .same (not_signed P nofun) (not_handedOut nofun) rfl

/-- A step leaves an initialised device initialised. -/
theorem StoreEffect.deviceInitialized {e : Step} (h : StoreEffect P e) (hi : e.before.store.deviceInitialized = true) :
    e.after.store.deviceInitialized = true := by
  cases h with
  | signed _ _ hstore _ =>
    rw [hstore]
    exact hi
  | handedOut _ _ _ hstore =>
    rw [hstore]
    exact hi
  | same _ _ hstore =>
    rw [hstore]
    exact hi
  | init _ _ hno _ =>
    rw [hi] at hno
    cases hno

/-- `signature_set` is up after a step that signed, or after one that found it up and handed no second half out. -/
theorem StoreEffect.signatureSet {e : Step} (h : StoreEffect P e) (hset : e.after.store.signatureSet = 1) :
    (∃ digest, SignedAs P e digest (e.after.store.nCryptoSig e.after.store.slotInUse) ∧
      e.output = some (digest ++ swBytes apduCodeOk)) ∨
    (¬SignedStep P e ∧ ¬HandedOut e ∧ e.before.store.signatureSet = 1 ∧
      (e.before.store.deviceInitialized = true → e.after.store = e.before.store)) := by
  cases h with
  | @signed digest sig hs _ hstore ho =>
    refine Or.inl ⟨digest, ?_, ho⟩
    rw [hstore, cryptoStoreSignature]
    simp only [Function.update_self]
    exact hs
  | handedOut _ _ _ hstore =>
    rw [hstore] at hset
    cases hset
  | same hs hh hstore => exact Or.inr ⟨hs, hh, hstore ▸ hset, fun _ => hstore⟩
  | init hs hh hno hstore =>
    refine Or.inr ⟨hs, hh, hstore.1 ▸ hset, ?_⟩
    intro hi
    rw [hi] at hno
    cases hno

/-- While `signature_set` is up the device is initialised, and the slot in use holds the signature of the signing that waits;
a review is pending on an initialised device only. -/
structure WaitInv (tr : List Step) (d : Device) : Prop where
  review : d.review ≠ none → d.store.deviceInitialized = true
  ready : d.store.signatureSet = 1 → d.store.deviceInitialized = true
  waits : d.store.signatureSet = 1 → ∃ digest, Waits P digest (d.store.nCryptoSig d.store.slotInUse) tr

theorem waitInv_step {tr : List Step} {d : Device} (h : WaitInv P tr d) (ev : Event) :
    WaitInv P (tr ++ [Entry.ofStep (Device.step P) d ev]) (d.step P ev).1 := by
  have he := storeEffect P d ev
  have hkeep : d.store.deviceInitialized = true → (d.step P ev).1.store.deviceInitialized = true := he.deviceInitialized
  constructor
  · intro hr
    exact hkeep ((step_review P hr).elim h.review id)
  · intro hset
    rcases he.signatureSet P hset with ⟨digest, ⟨salt, -, hr, -⟩, -⟩ | ⟨-, -, hbefore, -⟩
    · -- a signing answers a review
      refine hkeep (h.review fun hno => ?_)
      exact absurd (hno.symm.trans hr) nofun
    · exact hkeep (h.ready hbefore)
  · intro hset
    rcases he.signatureSet P hset with ⟨digest, hs, ho⟩ | ⟨hs, hh, hbefore, hsame⟩
    · exact ⟨digest, since_concat.2 (Or.inl ⟨hs, ho⟩)⟩
    · -- a step that leaves the signature alone lets the signing wait on
      obtain ⟨digest, hw⟩ := h.waits hbefore
      have hstore : (d.step P ev).1.store = d.store := hsame (h.ready hbefore)
      rw [hstore]
      exact ⟨digest, since_concat.2 (Or.inr ⟨fun hc => hc.elim hs hh, hw⟩)⟩

theorem waitInv_run {d₀ : Device} (h₀ : d₀.Booted) {tr : List Step} {d : Device} (h : Run (Device.step P) d₀ tr d) :
    WaitInv P tr d := by
  have hset : d₀.store.signatureSet ≠ 1 := by
    rw [h₀.signatureSet]
    decide
  exact h.history (WaitInv P) ⟨fun hr => absurd h₀.review hr, fun hs => absurd hs hset, fun hs => absurd hs hset⟩
    fun tr s i _ hs => waitInv_step P hs i

/-- `signature_set` is up exactly when a signing was not followed by a hand-out of the second half. -/
theorem signatureSet_iff_since {d₀ : Device} (h₀ : d₀.Booted) {tr : List Step} {d : Device}
    (h : Run (Device.step P) d₀ tr d) : d.store.signatureSet = 1 ↔ Since (SignedStep P) HandedOut tr := by
  refine h.flag_iff_since (fun d => d.store.signatureSet = 1) ?_ ?_
  · rw [h₀.signatureSet]
    decide
  · intro tr s i _
    have he := storeEffect P s i
    have hafter : (Entry.ofStep (Device.step P) s i).after = (s.step P i).1 := rfl
    have hbefore : (Entry.ofStep (Device.step P) s i).before = s := rfl
    generalize Entry.ofStep (Device.step P) s i = e at he hafter hbefore ⊢
    rw [← hafter]
    cases he with
    | signed hs hh hstore _ => exact iff_of_true (by rw [hstore]; rfl) (Or.inl ⟨_, _, hs⟩)
    | handedOut hs hh _ hstore => exact iff_of_false (by rw [hstore]; nofun) (fun hc => hc.elim hs fun h' => h'.1 hh)
    | same hs hh hstore =>
      rw [hstore, hbefore]
      exact ⟨fun hset => Or.inr ⟨hh, hset⟩, fun hc => hc.elim (fun h' => absurd h' hs) And.right⟩
    | init hs hh _ hstore =>
      rw [hstore.1, hbefore]
      exact ⟨fun hset => Or.inr ⟨hh, hset⟩, fun hc => hc.elim (fun h' => absurd h' hs) And.right⟩

end MailboxAux

open MailboxAux

/-- The signature is a one-shot mailbox, in every run from a boot.
1. A `GET_SIG` command without data that reaches its handler succeeds if and only if its index is 0 or 1 and a signing was not
   yet followed by a hand-out of the second half.
2. It then answers the half the index names of the signature of the last signing, which signs the SHA-256 of the very digest
   that signing was answered with.
3. On an initialised device, a step that is no successful signing and no hand-out of a second half leaves the key store alone.
4. A hand-out of the second half takes the flag down and leaves only zeros of the signature. -/
theorem signature_mailbox (d₀ : Device) (h₀ : d₀.Booted) (tr : List Step) (d : Device) (h : Run (Device.step P) d₀ tr d) :
    (∀ a, Reaches d a insGetSig → a.byte offsetDataLen = 0 →
      (Answered apduCodeOk (d.step P (.apdu a)).2 ↔
        (a.p2 = 0 ∨ a.p2 = 1) ∧ Since (SignedStep P) HandedOut tr) ∧
      (Answered apduCodeOk (d.step P (.apdu a)).2 → ∃ digest sig, Waits P digest sig tr ∧
        (d.step P (.apdu a)).2 = some (slice sig.1 (256 * a.p2.toNat) 256 ++ swBytes apduCodeOk))) ∧
    (∀ ev, d.store.deviceInitialized = true → ¬SignedStep P (Entry.ofStep (Device.step P) d ev) →
      ¬HandedOut (Entry.ofStep (Device.step P) d ev) → (d.step P ev).1.store = d.store) ∧
    (∀ ev, HandedOut (Entry.ofStep (Device.step P) d ev) → (d.step P ev).1.store.signatureSet = 0 ∧
      (d.step P ev).1.store.nCryptoSig (d.step P ev).1.store.slotInUse = ByteArr.zero 512) := by
  have hinv := waitInv_run P h₀ h
  have hflag := signatureSet_iff_since P h₀ h
  refine ⟨?_, ?_, ?_⟩
  · intro a hr hlc
    obtain ⟨io, hstep⟩ := step_of_reaches_getSig P hr
    have hindex : a.p2.toNat ≤ 1 ↔ a.p2 = 0 ∨ a.p2 = 1 := by
      constructor
      · intro hle
        rcases Nat.le_one_iff_eq_zero_or_eq_one.1 hle with h0 | h1
        · exact Or.inl (UInt8.toNat.inj h0)
        · exact Or.inr (UInt8.toNat.inj h1)
      · rintro (h0 | h1)
        · rw [h0]
          decide
        · rw [h1]
          decide
    simp only [hlc, true_and, if_true] at hstep
    rw [← hflag, ← hindex]
    by_cases hc : d.store.signatureSet = 1 ∧ a.p2.toNat ≤ 1
    · rw [if_pos hc] at hstep
      rw [hstep]
      refine ⟨iff_of_true ⟨_, rfl⟩ ⟨hc.2, hc.1⟩, ?_⟩
      intro _
      obtain ⟨digest, hw⟩ := hinv.waits hc.1
      exact ⟨digest, _, hw, by rw [Nat.mul_comm]; rfl⟩
    · rw [if_neg hc] at hstep
      rw [hstep]
      have hno : ¬Answered apduCodeOk (some (swBytes apduCodeConditionsNotSatisfied)) :=
        Answered.not_ok (by decide) (by decide)
      exact ⟨iff_of_false hno fun hc' => hc ⟨hc'.2, hc'.1⟩, fun hans => absurd hans hno⟩
  · intro ev hready hs hh
    cases storeEffect P d ev with
    | signed hs' _ _ _ => exact absurd ⟨_, _, hs'⟩ hs
    | handedOut _ hh' _ _ => exact absurd hh' hh
    | same _ _ hstore => exact hstore
    | init _ _ hi _ => exact absurd (hi.symm.trans hready) nofun
  · intro ev hh
    have hstore : (d.step P ev).1.store = clearSignature d.store := by
      cases storeEffect P d ev with
      | signed _ hh' _ _ => exact absurd hh hh'
      | handedOut _ _ _ hstore => exact hstore
      | same _ hh' _ => exact absurd hh hh'
      | init _ hh' _ _ => exact absurd hh hh'
    rw [hstore, clearSignature]
    exact ⟨rfl, Function.update_self ..⟩

end

/-- After an upload and an approval, the first half of the signature is handed out. -/
theorem signature_mailbox_signed :
    let is := Demo.upload (encodeTx Demo.tx) ++ [.approve 0]
    let tr := trace (Device.step Demo.platform) (Demo.device 1000) is
    let d := final (Device.step Demo.platform) (Demo.device 1000) is
    let get := Demo.apdu insGetSig 0 0 []
    Reaches d get insGetSig ∧ Answered apduCodeOk (d.step Demo.platform (.apdu get)).2 ∧
      Since (SignedStep Demo.platform) HandedOut tr ∧ ∃ digest sig, Waits Demo.platform digest sig tr ∧
        (d.step Demo.platform (.apdu get)).2 = some (slice sig.1 0 256 ++ swBytes apduCodeOk) := by
  intro is tr d get
  have hrun : Run (Device.step Demo.platform) (Demo.device 1000) tr d := run_trace _ _ is
  have hr : Reaches d get insGetSig := by decide +kernel
  have hset : d.store.signatureSet = 1 := by decide +kernel
  have hlc : get.byte offsetDataLen = 0 := by decide +kernel
  have hp2 : get.p2 = 0 := by decide +kernel
  obtain ⟨hiff, hsome⟩ := (signature_mailbox Demo.platform _ (Demo.device_booted 1000) tr d hrun).1 get hr hlc
  have hsince := (MailboxAux.signatureSet_iff_since Demo.platform (Demo.device_booted 1000) hrun).1 hset
  have hans := hiff.2 ⟨Or.inl hp2, hsince⟩
  obtain ⟨digest, sig, hw, hout⟩ := hsome hans
  rw [hp2] at hout
  exact ⟨hr, hans, hsince, digest, sig, hw, hout⟩

end LedgerArweave
