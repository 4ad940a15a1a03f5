import LedgerArweave.Effects

/-!
# The upload session

What the chunks of a run leave in the transaction buffer. `SessionInv` links the flag `tx_initialized` to the history: while it
is up, the buffer holds the payloads of all chunks that were appended since the last `INIT`, and none of them was cut.
-/

namespace LedgerArweave

open Lib

/-- A step of the app in a run. -/
abbrev Step : Type := Entry Device Event Output

section

variable (P : Platform)

/-! ## Buffer and parser -/

/-- `tx_parse` works on the parser's globals alone: the parser's result, then the validation of the object it left. -/
theorem run_txParse (store : CryptoStore) (expert : Bool) (u : Upload) :
    (txParse P store expert).run u =
      match (parserParse u.buffering.data (some 0) u.buffering.pos).run u.parser with
      | .error e p => .error e ({ u with txObj := ParserTx.zero }.setParser p)
      | .ok _ p => match parserValidate P u.buffering.data store expert p.v with
        | .error e => .error e ({ u with txObj := ParserTx.zero }.setParser p)
        | .ok _ => .ok () ({ u with txObj := ParserTx.zero }.setParser p) := by
  unfold txParse
  rw [run_bind_of_ok (run_modify _ u), run_bind_of_ok (run_get _)]
  cases hp : (parserParse u.buffering.data (some 0) u.buffering.pos).run u.parser with
  | error e p => rw [run_bind_of_error (run_zoom_of_error (by exact hp))]
  | ok _ p =>
    rw [run_bind_of_ok (run_zoom_of_ok (by exact hp)), txValidate, run_bind_of_ok (run_get _)]
    simp only [Upload.setParser]
    cases parserValidate P u.buffering.data store expert p.v <;> rfl

/-- `tx_parse` leaves the buffer and the flag alone, whether it succeeds or not. -/
theorem txParse_frame (store : CryptoStore) (expert : Bool) :
    ∀ {u u' : Upload}, ((txParse P store expert).run u = .ok () u' ∨ ∃ e, (txParse P store expert).run u = .error e u') →
      u'.buffering = u.buffering ∧ u'.txInitialized = u.txInitialized := by
  intro u u' h
  rw [run_txParse] at h
  split at h
  · rcases h with h | ⟨e, h⟩ <;> cases h
    exact ⟨rfl, rfl⟩
  · split at h
    · rcases h with h | ⟨e, h⟩ <;> cases h
      exact ⟨rfl, rfl⟩
    · rcases h with h | ⟨e, h⟩ <;> cases h
      exact ⟨rfl, rfl⟩

/-- What an append cannot exceed. -/
theorem appended_fits {b : Buffering} (hb : b.Valid) (c : List UInt8) :
    (c.take (P.appended b.size b.pos c)).length = P.appended b.size b.pos c ∧
      b.pos + P.appended b.size b.pos c ≤ b.data.length := by
  have h1 := P.appended_le_length b.size b.pos c
  have h2 := P.appended_le_room b.size b.pos c
  have h3 := hb.pos_le
  have h4 := hb.size_le
  exact ⟨List.length_take_of_le h1, by omega⟩

theorem txAppend_valid {b : Buffering} (hb : b.Valid) (c : List UInt8) :
    (txAppend P b c).2.Valid ∧ (txAppend P b c).2.data.length = b.data.length ∧ (txAppend P b c).2.size = b.size := by
  obtain ⟨hlen, hle⟩ := appended_fits P hb c
  have hdata : (patch b.data b.pos (c.take (P.appended b.size b.pos c))).length = b.data.length := length_patch (by omega)
  refine ⟨⟨?_, ?_⟩, hdata, rfl⟩
  · simp only [txAppend, hdata]
    exact hle
  · simp only [txAppend, hdata]
    exact hb.size_le

/-- A chunk that fits is at the end of the buffer after it was appended. -/
theorem content_txAppend {b : Buffering} (hb : b.Valid) {c : List UInt8} (hc : P.appended b.size b.pos c = c.length) :
    (txAppend P b c).2.content = b.content ++ c := by
  have := take_patch c hb.pos_le
  simp only [Buffering.content, txAppend, hc, List.take_length]
  exact this

theorem started_valid {b : Buffering} : (txReset (txInitialize b)).Valid := ⟨Nat.zero_le _, Nat.le_refl _⟩

/-! ## The chunks of a run -/

/-- A step hands a `SIGN` command to its handler. -/
def SignCall (e : Step) (a : Apdu) : Prop := e.input = .apdu a ∧ Reaches e.before a insSign

/-- A step starts an upload. -/
def IsInit (e : Step) : Prop := ∃ a, SignCall e a ∧ a.p2 = 0 ∧ a.p1 = p1Init

instance (d : Device) (a : Apdu) (ins : UInt8) : Decidable (Reaches d a ins) :=
  decidable_of_iff (apduMinLength ≤ a.1.length ∧ a.byte offsetCla = cla ∧ a.byte offsetIns = ins ∧
      d.store.deviceInitialized = true ∧ d.pinValidated = true)
    ⟨fun ⟨h1, h2, h3, h4, h5⟩ => ⟨h1, h2, h3, h4, h5⟩, fun h => ⟨h.length, h.cla, h.ins, h.ready, h.pin⟩⟩

/-- The chunk a step hands to `tx_append`: that of an `ADD`, or of a `LAST` while the flag `tx_initialized` is up. -/
def chunkOf (e : Step) : Option (List UInt8) :=
  match e.input with
  | .apdu a =>
    if Reaches e.before a insSign ∧ a.p2 = 0 ∧ (a.p1 = p1Add ∨ (a.p1 = p1Last ∧ e.before.upload.txInitialized = true)) then
      some a.data
    else none
  | _ => none

/-- `handleSign` calls `tx_parse`, with these globals. -/
def ParseCall (d : Device) (a : Apdu) (u : Upload) : Prop :=
  Reaches d a insSign ∧ (processChunk P (patch d.io 0 a.1) a.1.length).run d.upload = .ok true u

/-- The globals `tx_parse` is called with are those after the last chunk was appended. -/
theorem ParseCall.eq {d : Device} {a : Apdu} {u : Upload} (h : ParseCall P d a u) :
    a.p2 = 0 ∧ a.p1 = p1Last ∧ d.upload.txInitialized = true ∧ d.upload.Fits P a.data ∧ u = d.upload.append P a.data := by
  obtain ⟨hr, hrun⟩ := h
  have hlen : offsetData ≤ a.1.length := hr.length
  rw [run_processChunk P hlen (by rw [payload_patch, Apdu.data, List.length_drop]), payload_patch,
    getD_patch (Nat.lt_of_lt_of_le (by decide) hlen), getD_patch (Nat.lt_of_lt_of_le (by decide) hlen)] at hrun
  change (if a.p2 ≠ 0 then _ else if a.p1 = p1Init then _ else if a.p1 = p1Add then _ else if a.p1 = p1Last then _ else _) =
    _ at hrun
  split at hrun
  · cases hrun
  rename_i h2
  split at hrun
  · cases hrun
  split at hrun
  · split at hrun <;> cases hrun
  split at hrun
  · rename_i h1
    split at hrun
    · cases hrun
    rename_i hi
    split at hrun
    · rename_i hf
      cases hrun
      exact ⟨not_not.1 h2, h1, by simpa using hi, hf, rfl⟩
    · cases hrun
  · cases hrun

/-- A `LAST` that passes the checks of `process_chunk` is parsed. -/
theorem ParseCall.of {d : Device} {a : Apdu} (hr : Reaches d a insSign) (h2 : a.p2 = 0) (h1 : a.p1 = p1Last)
    (hi : d.upload.txInitialized = true) (hf : d.upload.Fits P a.data) : ParseCall P d a (d.upload.append P a.data) := by
  have hlen : offsetData ≤ a.1.length := hr.length
  have hp2 : (patch d.io 0 a.1).getD offsetP2 0 = a.p2 := getD_patch (Nat.lt_of_lt_of_le (by decide) hlen)
  have hp1 : (patch d.io 0 a.1).getD offsetP1 0 = a.p1 := getD_patch (Nat.lt_of_lt_of_le (by decide) hlen)
  refine ⟨hr, ?_⟩
  rw [run_processChunk P hlen (by rw [payload_patch, Apdu.data, List.length_drop]), payload_patch, hp2, hp1, h2, h1, hi,
    if_neg (by decide), if_neg (by decide), if_neg (by decide), if_pos rfl, if_neg (by decide), if_pos hf]

/-- The part of a history since the last `INIT`: it starts there, and no `INIT` came after it. -/
structure SessionSplit (tr : List Step) (init : Step) (chunks : List Step) : Prop where
  split : ∃ pre, tr = pre ++ init :: chunks
  init : IsInit init
  last : ∀ x ∈ chunks, ¬IsInit x

/-- The chunks of these steps were appended whole, and they are what the buffer holds. -/
structure Collected (chunks : List Step) (content : List UInt8) : Prop where
  content : content = (chunks.filterMap chunkOf).flatten
  whole : ∀ x ∈ chunks, ∀ c, chunkOf x = some c → x.before.upload.Fits P c

/-- While `tx_initialized` is up, the buffer holds the chunks since the last `INIT`. -/
structure SessionInv (tr : List Step) (d : Device) : Prop where
  valid : d.upload.buffering.Valid
  session : d.upload.txInitialized = true → ∃ init chunks, SessionSplit tr init chunks ∧
    Collected P chunks d.upload.buffering.content

/-! ## The invariant -/

namespace SessionAux

theorem not_isInit_of_not_reaches {e : Step} (h : ∀ a, e.input = .apdu a → ¬Reaches e.before a insSign) : ¬IsInit e :=
  fun ⟨a, ⟨hi, hr⟩, _⟩ => h a hi hr

theorem chunkOf_of_not_reaches {e : Step} (h : ∀ a, e.input = .apdu a → ¬Reaches e.before a insSign) : chunkOf e = none := by
  unfold chunkOf
  split
  · rename_i a hi
    exact if_neg fun hc => h a hi hc.1
  · rfl

/-- A step with an APDU starts an upload when the APDU is an `INIT` that reaches its handler. -/
theorem isInit_apdu {d d' : Device} {a : Apdu} {o : Output} :
    IsInit ⟨d, .apdu a, o, d'⟩ ↔ Reaches d a insSign ∧ a.p2 = 0 ∧ a.p1 = p1Init := by
  constructor
  · rintro ⟨b, ⟨hb, hr⟩, h2, h1⟩
    cases hb
    exact ⟨hr, h2, h1⟩
  · rintro ⟨hr, h2, h1⟩
    exact ⟨a, ⟨rfl, hr⟩, h2, h1⟩

/-- A step that hands no chunk over and starts no upload keeps the session. -/
theorem keep {tr : List Step} {init e : Step} {chunks : List Step} {content : List UInt8}
    (hs : SessionSplit tr init chunks) (hc : Collected P chunks content) (hi : ¬IsInit e) (he : chunkOf e = none) :
    SessionSplit (tr ++ [e]) init (chunks ++ [e]) ∧ Collected P (chunks ++ [e]) content := by
  obtain ⟨pre, rfl⟩ := hs.split
  refine ⟨⟨⟨pre, by simp⟩, hs.init, ?_⟩, ⟨?_, ?_⟩⟩
  · intro x hx
    rcases List.mem_append.1 hx with hx | hx
    · exact hs.last x hx
    · rw [List.mem_singleton.1 hx]
      exact hi
  · rw [List.filterMap_append, hc.content]
    simp [he]
  · intro x hx c hxc
    rcases List.mem_append.1 hx with hx | hx
    · exact hc.whole x hx c hxc
    · rw [List.mem_singleton.1 hx, he] at hxc
      cases hxc

/-- A step that hands a chunk over that fits makes the session one chunk longer. -/
theorem extend {tr : List Step} {init e : Step} {chunks : List Step} {content c : List UInt8}
    (hs : SessionSplit tr init chunks) (hc : Collected P chunks content) (hi : ¬IsInit e) (he : chunkOf e = some c)
    (hf : e.before.upload.Fits P c) :
    SessionSplit (tr ++ [e]) init (chunks ++ [e]) ∧ Collected P (chunks ++ [e]) (content ++ c) := by
  obtain ⟨pre, rfl⟩ := hs.split
  refine ⟨⟨⟨pre, by simp⟩, hs.init, ?_⟩, ⟨?_, ?_⟩⟩
  · intro x hx
    rcases List.mem_append.1 hx with hx | hx
    · exact hs.last x hx
    · rw [List.mem_singleton.1 hx]
      exact hi
  · rw [List.filterMap_append, hc.content]
    simp [he]
  · intro x hx c' hxc
    rcases List.mem_append.1 hx with hx | hx
    · exact hc.whole x hx c' hxc
    · rw [List.mem_singleton.1 hx] at hxc ⊢
      rw [he] at hxc
      cases hxc
      exact hf

/-- A step with another first parameter than that of an `INIT` starts no upload. -/
theorem not_isInit_apdu {d d' : Device} {a : Apdu} {o : Output} {p : UInt8} (h1 : a.p1 = p) (hp : p ≠ p1Init) :
    ¬IsInit ⟨d, .apdu a, o, d'⟩ :=
  fun hi => hp (h1.symm.trans (isInit_apdu.1 hi).2.2)

/-- A chunk that reaches its handler, by the values of its parameters. -/
theorem chunkOf_apdu {d d' : Device} {a : Apdu} {o : Output} (hr : Reaches d a insSign) (h2 : a.p2 = 0)
    (h1 : a.p1 = p1Add ∨ (a.p1 = p1Last ∧ d.upload.txInitialized = true)) : chunkOf ⟨d, .apdu a, o, d'⟩ = some a.data :=
  if_pos ⟨hr, h2, h1⟩

theorem chunkOf_apdu_none {d d' : Device} {a : Apdu} {o : Output}
    (h : ¬(a.p2 = 0 ∧ (a.p1 = p1Add ∨ (a.p1 = p1Last ∧ d.upload.txInitialized = true)))) :
    chunkOf ⟨d, .apdu a, o, d'⟩ = none :=
  if_neg fun hc => h hc.2

end SessionAux

open SessionAux

/-- A step that leaves the upload alone keeps the invariant. -/
theorem SessionInv.keep {tr : List Step} {d : Device} (h : SessionInv P tr d) {e : Step} (hi : ¬IsInit e)
    (hc : chunkOf e = none) (hu : e.after.upload = d.upload) : SessionInv P (tr ++ [e]) e.after := by
  refine ⟨by rw [hu]; exact h.valid, ?_⟩
  intro hflag
  rw [hu] at hflag ⊢
  obtain ⟨init, chunks, hs, hcol⟩ := h.session hflag
  exact ⟨init, chunks ++ [e], SessionAux.keep P hs hcol hi hc⟩

/-- A step that appends a chunk that fits keeps the invariant. -/
theorem SessionInv.grow {tr : List Step} {d : Device} (h : SessionInv P tr d) {e : Step} {c : List UInt8} (hi : ¬IsInit e)
    (hc : chunkOf e = some c) (hbefore : e.before = d) (hf : d.upload.Fits P c)
    (hb : e.after.upload.buffering = (txAppend P d.upload.buffering c).2)
    (ht : e.after.upload.txInitialized = d.upload.txInitialized) : SessionInv P (tr ++ [e]) e.after := by
  refine ⟨by rw [hb]; exact (txAppend_valid P h.valid c).1, ?_⟩
  intro hflag
  rw [ht] at hflag
  obtain ⟨init, chunks, hs, hcol⟩ := h.session hflag
  refine ⟨init, chunks ++ [e], ?_⟩
  rw [hb, content_txAppend P h.valid hf]
  exact extend P hs hcol hi hc (hbefore ▸ hf)

/-- Every step keeps the invariant. -/
theorem sessionInv_step {tr : List Step} {d : Device} (h : SessionInv P tr d) (ev : Event) :
    SessionInv P (tr ++ [Entry.ofStep (Device.step P) d ev]) (d.step P ev).1 := by
  by_cases hsign : ∃ a, ev = .apdu a ∧ Reaches d a insSign
  · obtain ⟨a, rfl, hr⟩ := hsign
    obtain ⟨io, u, r, o, heff, hstep⟩ := step_of_reaches_sign P hr
    have hentry : Entry.ofStep (Device.step P) d (.apdu a) =
        ⟨d, .apdu a, o, { d with io := io, upload := u, review := r }⟩ := by rw [Entry.ofStep, hstep]
    rw [hentry, hstep]
    cases heff with
    | badP2 h2 => exact h.keep P (fun hi => h2 (isInit_apdu.1 hi).2.1) (chunkOf_apdu_none fun hc => h2 hc.1) rfl
    | init h2 h1 =>
      -- a new session: nothing is in the buffer yet
      refine ⟨started_valid, fun _ => ⟨_, [], ⟨⟨tr, rfl⟩, isInit_apdu.2 ⟨hr, h2, h1⟩, by simp⟩, ⟨?_, by simp⟩⟩⟩
      exact List.take_zero ..
    | add h2 h1 hf =>
      exact h.grow P (not_isInit_apdu h1 (by decide)) (chunkOf_apdu hr h2 (Or.inl h1)) rfl hf rfl rfl
    | full h2 h1 hf => exact ⟨(txAppend_valid P h.valid a.data).1, fun hflag => by cases hflag⟩
    | notStarted h2 h1 hi =>
      refine h.keep P (not_isInit_apdu h1 (by decide)) (chunkOf_apdu_none ?_) rfl
      rintro ⟨-, hc | ⟨-, hc⟩⟩
      · exact absurd (hc.symm.trans h1) (by decide)
      · exact absurd (hc.symm.trans hi) (by decide)
    | badP1 h2 h1 => exact ⟨h.valid, fun hflag => by cases hflag⟩
    | parseError h2 h1 hi hf hparse =>
      obtain ⟨hb, ht⟩ := txParse_frame P d.store d.expert (Or.inr ⟨_, hparse⟩)
      exact h.grow P (not_isInit_apdu h1 (by decide)) (chunkOf_apdu hr h2 (Or.inr ⟨h1, hi⟩)) rfl hf hb ht
    | review h2 h1 hi hf hparse =>
      obtain ⟨hb, ht⟩ := txParse_frame P d.store d.expert (Or.inl hparse)
      exact h.grow P (not_isInit_apdu h1 (by decide)) (chunkOf_apdu hr h2 (Or.inr ⟨h1, hi⟩)) rfl hf hb ht
  · have hno : ∀ a, ev = .apdu a → ¬Reaches d a insSign := fun a ha hr => hsign ⟨a, ha, hr⟩
    exact h.keep P (not_isInit_of_not_reaches hno) (chunkOf_of_not_reaches hno) (step_upload_of_not_sign P hno)

/-- The invariant holds in every run from a boot. -/
theorem sessionInv_run {d₀ : Device} (h₀ : d₀.Booted) {tr : List Step} {d : Device} (h : Run (Device.step P) d₀ tr d) :
    SessionInv P tr d := by
  refine h.history (SessionInv P) ⟨⟨?_, ?_⟩, ?_⟩ fun tr s i _ hs => sessionInv_step P hs i
  · rw [h₀.pos]
    exact Nat.zero_le _
  · rw [h₀.size]
    exact Nat.zero_le _
  · intro hflag
    rw [h₀.txInitialized] at hflag
    cases hflag

end

end LedgerArweave
