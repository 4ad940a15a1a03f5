import LedgerArweave.Session
import LedgerArweave.Demo

/-!
# The upload of a transaction over runs

That the transaction parsed is the one uploaded since the last `INIT`, and exactly which runs keep to the upload protocol.
-/

namespace LedgerArweave

open Lib

/-! ## No chunk is lost, duplicated or reordered -/

/-- In every run from a boot, whatever the order of the commands:
1. whenever `handleSign` calls `tx_parse`, the transaction buffer is the concatenation, in order of arrival, of the chunks
   appended since the last `INIT`, the last one included, and each of them was appended whole;
2. a command other than `SIGN` leaves the buffer, `tx_initialized` and `parser_tx_obj` alone. -/
theorem parse_sees_session (P : Platform) (d₀ : Device) (h₀ : d₀.Booted) (tr : List Step) (d : Device)
    (h : Run (Device.step P) d₀ tr d) :
    (∀ (a : Apdu) (u : Upload), ParseCall P d a u →
      ∃ init chunks, SessionSplit tr init chunks ∧
        Collected P (chunks ++ [Entry.ofStep (Device.step P) d (.apdu a)]) u.buffering.content) ∧
    (∀ a : Apdu, a.byte offsetIns ≠ insSign → (d.step P (.apdu a)).1.upload = d.upload) := by
  have hinv := sessionInv_run P h₀ h
  constructor
  · intro a u hcall
    obtain ⟨h2, h1, hi, hf, rfl⟩ := hcall.eq
    obtain ⟨init, chunks, hs, hcol⟩ := hinv.session hi
    have hnot : ¬IsInit (Entry.ofStep (Device.step P) d (.apdu a)) := SessionAux.not_isInit_apdu h1 (by decide)
    have hchunk : chunkOf (Entry.ofStep (Device.step P) d (.apdu a)) = some a.data :=
      SessionAux.chunkOf_apdu hcall.1 h2 (Or.inr ⟨h1, hi⟩)
    have hgrown := SessionAux.extend P hs hcol hnot hchunk hf
    refine ⟨init, chunks, hs, ?_⟩
    rw [Upload.append, content_txAppend P hinv.valid hf]
    exact hgrown.2
  · intro a ha
    exact step_upload_of_not_sign P fun b hb hr => ha (by cases hb; exact hr.ins)

/-- An upload of three chunks, the last of which is about to be parsed. -/
theorem parse_sees_session_three_chunks :
    let is := [Demo.sign p1Init [], Demo.sign p1Add [1, 2], .apdu (Demo.apdu insGetSig 0 0 []), Demo.sign p1Add [3]]
    let d := final (Device.step Demo.platform) (Demo.device 8) is
    ∃ u, ParseCall Demo.platform d (Demo.apdu insSign p1Last 0 [4]) u ∧
      ∃ init chunks, SessionSplit (trace (Device.step Demo.platform) (Demo.device 8) is) init chunks ∧
        Collected Demo.platform
          (chunks ++ [Entry.ofStep (Device.step Demo.platform) d (.apdu (Demo.apdu insSign p1Last 0 [4]))])
          u.buffering.content := by
  intro is d
  have hcall : ∃ u, ParseCall Demo.platform d (Demo.apdu insSign p1Last 0 [4]) u := ⟨_, by decide +kernel, rfl⟩
  obtain ⟨u, hu⟩ := hcall
  exact ⟨u, hu, (parse_sees_session Demo.platform _ (Demo.device_booted 8) _ _ (run_trace _ _ is)).1 _ u hu⟩

/-! ## Session discipline -/

section

variable (P : Platform)

/-- A step receives a `SIGN` APDU with this first parameter, whatever comes of it. -/
def ReceivesSign (p1 : UInt8) (e : Step) : Prop :=
  ∃ a, e.input = .apdu a ∧ a.byte offsetCla = cla ∧ a.byte offsetIns = insSign ∧ a.p1 = p1

/-- A step receives a `SIGN` APDU. -/
def IsSign (e : Step) : Prop := ∃ p1, ReceivesSign p1 e

/-- An `INIT` chunk is answered 0x9000. -/
def InitDone (e : Step) : Prop := ReceivesSign p1Init e ∧ Answered apduCodeOk e.output

/-- An `ADD` or `LAST` chunk is accepted: answered 0x9000, or left to a review. -/
def ChunkAccepted (e : Step) : Prop :=
  (ReceivesSign p1Add e ∨ ReceivesSign p1Last e) ∧ (Answered apduCodeOk e.output ∨ e.output = none)

/-- A `LAST` chunk is processed: the transaction is parsed, whether a review comes of it or an error. -/
def LastProcessed (e : Step) : Prop := ∃ a u, e.input = .apdu a ∧ ParseCall P e.before a u

/-- A `SIGN` APDU is answered with an error. -/
def SignError (e : Step) : Prop := IsSign e ∧ e.output ≠ none ∧ ¬Answered apduCodeOk e.output

/-- An `INIT` came such that, since then, no `LAST` was processed and no `SIGN` APDU was answered with an error. -/
def InSession (pre : List Step) : Prop := Since InitDone (fun x => LastProcessed P x ∨ SignError x) pre

/-- The discipline of an upload: every `ADD` or `LAST` that is accepted or parsed comes inside a session. -/
def Disciplined (tr : List Step) : Prop :=
  ∀ pre e post, tr = pre ++ e :: post → ChunkAccepted e ∨ LastProcessed P e → InSession P pre

/-- A chunk passes the checks of `process_chunk`: its second parameter is zero, there is room for it unless it is an `INIT`,
and `tx_initialized` is up if it is a `LAST`. -/
def Passes (p1 : UInt8) (d : Device) (ev : Event) : Prop :=
  ∃ a, ev = .apdu a ∧ Reaches d a insSign ∧ a.p2 = 0 ∧ a.p1 = p1 ∧ (p1 ≠ p1Init → d.upload.Fits P a.data) ∧
    (p1 = p1Last → d.upload.txInitialized = true)

/-- The `SIGN` APDU received last is an `INIT` or an `ADD` that passed the checks. -/
def AfterPassed (pre : List Step) : Prop :=
  Since (fun x => Passes P p1Init x.before x.input ∨ Passes P p1Add x.before x.input) IsSign pre

namespace DisciplineAux

/-- A chunk passes the checks as one kind only. -/
theorem Passes.unique {p1 p1' : UInt8} {d : Device} {ev : Event} (h : Passes P p1 d ev) (h' : Passes P p1' d ev) :
    p1 = p1' := by
  obtain ⟨a, rfl, -, -, h1, -⟩ := h
  obtain ⟨b, hb, -, -, h1', -⟩ := h'
  cases hb
  exact h1.symm.trans h1'

/-- What comes of a `SIGN` APDU: it passes the checks as one of the three kinds of chunk, or it is answered with an error. -/
inductive Sorted (d : Device) (ev : Event) (o : Output) : Prop where
  | init (h : Passes P p1Init d ev) (ho : Answered apduCodeOk o)
  | add (h : Passes P p1Add d ev) (ho : Answered apduCodeOk o)
  | last (h : Passes P p1Last d ev) (ho : ¬Answered apduCodeOk o)
  | error (h : ∀ p1 ∈ [p1Init, p1Add, p1Last], ¬Passes P p1 d ev) (ho : o ≠ none ∧ ¬Answered apduCodeOk o)

/-- An APDU that does not reach the handler of `SIGN`, or does not pass the checks, and is answered with an error. -/
theorem Sorted.of_sw {d : Device} {a : Apdu} {sw : StatusWord} (hsw : sw ≠ apduCodeOk) (hlt : sw < 0x10000)
    (h : ∀ p1 ∈ [p1Init, p1Add, p1Last], ¬Passes P p1 d (.apdu a)) : Sorted P d (.apdu a) (some (swBytes sw)) :=
  .error h ⟨nofun, Answered.not_ok hsw hlt⟩

theorem sorted_sign {d : Device} {a : Apdu} (hr : Reaches d a insSign) {u : Upload} {r : Option Review} {o : Output}
    (h : SignEffect P d a u r o) : Sorted P d (.apdu a) o := by
  cases h with
  | badP2 h2 =>
    refine .of_sw P (by decide) (by decide) ?_
    rintro p1 - ⟨b, hb, -, h, -⟩
    cases hb
    exact h2 h
  | init h2 h1 => exact .init ⟨a, rfl, hr, h2, h1, fun h => absurd rfl h, nofun⟩ Answered.ok
  | add h2 h1 hf => exact .add ⟨a, rfl, hr, h2, h1, fun _ => hf, nofun⟩ Answered.ok
  | full h2 h1 hf =>
    refine .of_sw P (by decide) (by decide) ?_
    rintro p1 - ⟨b, hb, -, -, hp, hfits, -⟩
    cases hb
    refine hf (hfits ?_)
    rw [← hp]
    rcases h1 with h1 | ⟨h1, -⟩ <;> rw [h1] <;> decide
  | notStarted h2 h1 hi =>
    refine .of_sw P (by decide) (by decide) ?_
    rintro p1 - ⟨b, hb, -, -, hp, -, hl⟩
    cases hb
    have := hl (hp.symm.trans h1)
    rw [hi] at this
    cases this
  | badP1 h2 h1 =>
    refine .of_sw P (by decide) (by decide) ?_
    rintro p1 hmem ⟨b, hb, -, -, hp, -⟩
    cases hb
    simp only [List.mem_cons, List.not_mem_nil, or_false] at hmem
    rcases hmem with h | h | h
    · exact h1.1 (hp.trans h)
    · exact h1.2.1 (hp.trans h)
    · exact h1.2.2 (hp.trans h)
  | parseError h2 h1 hi hf _ =>
    exact .last ⟨a, rfl, hr, h2, h1, fun _ => hf, fun _ => hi⟩ (Answered.not_ok_append (by decide) (by decide))
  | review h2 h1 hi hf _ =>
    refine .last ⟨a, rfl, hr, h2, h1, fun _ => hf, fun _ => hi⟩ ?_
    rintro ⟨body, hb⟩
    cases hb

/-- Every `SIGN` APDU is sorted. -/
theorem sorted_step {d : Device} {ev : Event} (h : IsSign (Entry.ofStep (Device.step P) d ev)) :
    Sorted P d ev (d.step P ev).2 := by
  obtain ⟨p1, a, rfl, hcla, hins, -⟩ := h
  change Sorted P d (.apdu a) (receive P a d).2
  have hver : a.byte offsetIns ≠ insGetVersion := by
    rw [hins]
    decide
  have he := receive_effect P d a
  generalize (receive P a d).1 = d' at he
  generalize (receive P a d).2 = o at he ⊢
  have other : ∀ ins, Reaches d a ins → ins ≠ insSign → False := fun ins hr hne => hne (hr.ins.symm.trans hins)
  cases he with
  | refused hr _ hsw =>
    refine .of_sw P hsw.1 hsw.2 ?_
    rintro p1 - ⟨b, hb, hreach, -⟩
    cases hb
    exact hr insSign (by decide) hreach
  | version hi => exact absurd hi hver
  | sign hr hs => exact sorted_sign P hr hs
  | addressRefused hr _ => exact (other _ hr (by decide)).elim
  | address hr => exact (other _ hr (by decide)).elim
  | addressReview hr => exact (other _ hr (by decide)).elim
  | pkRefused hr => exact (other _ hr (by decide)).elim
  | pk hr => exact (other _ hr (by decide)).elim
  | sigRefused hr => exact (other _ hr (by decide)).elim
  | sig hr => exact (other _ hr (by decide)).elim

/-- A chunk that passes the checks is a `SIGN` APDU with its first parameter. -/
theorem Passes.receivesSign {p1 : UInt8} {e : Step} (h : Passes P p1 e.before e.input) : ReceivesSign p1 e := by
  obtain ⟨a, ha, hr, -, h1, -⟩ := h
  exact ⟨a, ha, hr.cla, hr.ins, h1⟩

theorem lastProcessed_iff {e : Step} : LastProcessed P e ↔ Passes P p1Last e.before e.input := by
  constructor
  · rintro ⟨a, u, ha, hcall⟩
    obtain ⟨h2, h1, hi, hf, -⟩ := hcall.eq
    exact ⟨a, ha, hcall.1, h2, h1, fun _ => hf, fun _ => hi⟩
  · rintro ⟨a, ha, hr, h2, h1, hf, hi⟩
    exact ⟨a, _, ha, ParseCall.of P hr h2 h1 (hi rfl) (hf (by decide))⟩

section

variable {d : Device} {ev : Event}

theorem initDone_iff : InitDone (Entry.ofStep (Device.step P) d ev) ↔ Passes P p1Init d ev := by
  constructor
  · rintro ⟨hrecv, ho⟩
    have hsign : IsSign (Entry.ofStep (Device.step P) d ev) := ⟨p1Init, hrecv⟩
    obtain ⟨a, ha, -, -, h1⟩ := hrecv
    cases sorted_step P hsign with
    | init h _ => exact h
    | add h _ =>
      obtain ⟨b, hb, -, -, hp, -⟩ := h
      cases ha.symm.trans hb
      exact absurd (hp.symm.trans h1) (by decide)
    | last _ hno => exact absurd ho hno
    | error _ hno => exact absurd ho hno.2
  · intro h
    have hrecv : ReceivesSign p1Init (Entry.ofStep (Device.step P) d ev) := Passes.receivesSign P h
    refine ⟨hrecv, ?_⟩
    cases sorted_step P ⟨_, hrecv⟩ with
    | init _ ho => exact ho
    | add _ ho => exact ho
    | last h' _ => exact absurd (Passes.unique P h h') (by decide)
    | error hno _ => exact absurd h (hno _ (by decide))

/-- The chunks accepted or parsed are those that pass the checks as an `ADD` or a `LAST`. -/
theorem accepted_iff : (ChunkAccepted (Entry.ofStep (Device.step P) d ev) ∨
    LastProcessed P (Entry.ofStep (Device.step P) d ev)) ↔ Passes P p1Add d ev ∨ Passes P p1Last d ev := by
  constructor
  · rintro (⟨hrecv, ho⟩ | hl)
    · have hnot : ¬Passes P p1Init d ev := by
        rintro ⟨b, hb, -, -, hp, -⟩
        rcases hrecv with ⟨a, ha, -, -, h1⟩ | ⟨a, ha, -, -, h1⟩
        · cases ha.symm.trans hb
          exact absurd (hp.symm.trans h1) (by decide)
        · cases ha.symm.trans hb
          exact absurd (hp.symm.trans h1) (by decide)
      have hsign : IsSign (Entry.ofStep (Device.step P) d ev) := hrecv.elim (fun h => ⟨_, h⟩) (fun h => ⟨_, h⟩)
      cases sorted_step P hsign with
      | init h _ => exact absurd h hnot
      | add h _ => exact Or.inl h
      | last h _ => exact Or.inr h
      | error _ hno => exact (ho.elim hno.2 hno.1).elim
    · exact Or.inr ((lastProcessed_iff P).1 hl)
  · rintro (h | h)
    · have hrecv : ReceivesSign p1Add (Entry.ofStep (Device.step P) d ev) := Passes.receivesSign P h
      refine Or.inl ⟨Or.inl hrecv, Or.inl ?_⟩
      cases sorted_step P ⟨_, hrecv⟩ with
      | init _ ho => exact ho
      | add _ ho => exact ho
      | last h' _ => exact absurd (Passes.unique P h h') (by decide)
      | error hno _ => exact absurd h (hno _ (by decide))
    · exact Or.inr ((lastProcessed_iff P).2 h)

/-- An `INIT` or an `ADD` that passes the checks does not end a session. -/
theorem not_ends {p1 : UInt8} (hp1 : p1 = p1Init ∨ p1 = p1Add) (h : Passes P p1 d ev) :
    ¬(LastProcessed P (Entry.ofStep (Device.step P) d ev) ∨ SignError (Entry.ofStep (Device.step P) d ev)) := by
  have hne : p1 ≠ p1Last := by rcases hp1 with rfl | rfl <;> decide
  have hmem : p1 ∈ [p1Init, p1Add, p1Last] := by rcases hp1 with rfl | rfl <;> decide
  rintro (hl | ⟨hsign, -, hno⟩)
  · exact hne (Passes.unique P h ((lastProcessed_iff P).1 hl))
  · cases sorted_step P hsign with
    | init _ ho => exact hno ho
    | add _ ho => exact hno ho
    | last h' _ => exact hne (Passes.unique P h h')
    | error hnot _ => exact hnot p1 hmem h

/-- A `SIGN` APDU that does not end a session is an `INIT` or an `ADD` that passes the checks. -/
theorem passes_of_not_ends (hsign : IsSign (Entry.ofStep (Device.step P) d ev))
    (h : ¬(LastProcessed P (Entry.ofStep (Device.step P) d ev) ∨ SignError (Entry.ofStep (Device.step P) d ev))) :
    Passes P p1Init d ev ∨ Passes P p1Add d ev := by
  cases sorted_step P hsign with
  | init h _ => exact Or.inl h
  | add h _ => exact Or.inr h
  | last h' _ => exact (h (Or.inl ((lastProcessed_iff P).2 h'))).elim
  | error _ ho => exact (h (Or.inr ⟨hsign, ho⟩)).elim

end

/-- What ends a session is a `SIGN` APDU. -/
theorem isSign_of_ends {e : Step} (h : LastProcessed P e ∨ SignError e) : IsSign e := by
  rcases h with h | h
  · exact ⟨_, Passes.receivesSign P ((lastProcessed_iff P).1 h)⟩
  · exact h.1

/-- When every accepted chunk comes directly after an `INIT` or an `ADD` that passed, it comes inside a session: by induction on
the number of steps before it, back to the `INIT`. -/
theorem inSession_of_afterPassed {d₀ : Device} {tr : List Step} {d : Device} (h : Run (Device.step P) d₀ tr d)
    (hall : ∀ pre e post, tr = pre ++ e :: post → Passes P p1Add e.before e.input ∨ Passes P p1Last e.before e.input →
      AfterPassed P pre) :
    ∀ (n : Nat) (pre : List Step) (e : Step) (post : List Step), pre.length = n → tr = pre ++ e :: post →
      Passes P p1Add e.before e.input ∨ Passes P p1Last e.before e.input → InSession P pre := by
  intro n
  induction n using Nat.strongRecOn with
  | ind n ih =>
    intro pre e post hn htr hpass
    obtain ⟨p, x, m, rfl, hx, hm⟩ := hall pre e post htr hpass
    have hquiet : ∀ y ∈ m, ¬(LastProcessed P y ∨ SignError y) := fun y hy hends => hm y hy (isSign_of_ends P hends)
    have htr' : tr = p ++ x :: (m ++ e :: post) := by rw [htr, List.append_assoc, List.cons_append]
    have hstep : x = Entry.ofStep (Device.step P) x.before x.input := (h.split htr').2
    have hx_ends : ¬(LastProcessed P x ∨ SignError x) := by
      rw [hstep]
      rcases hx with hx | hx
      · exact not_ends P (Or.inl rfl) hx
      · exact not_ends P (Or.inr rfl) hx
    have hsession : InSession P (p ++ [x]) := by
      rcases hx with hx | hx
      · -- the session starts here
        refine since_concat.2 (Or.inl ?_)
        rw [hstep]
        exact (initDone_iff P).2 hx
      · have hlt : p.length < n := by
          rw [← hn, List.length_append, List.length_cons]
          omega
        exact since_concat.2 (Or.inr ⟨hx_ends, ih p.length hlt p x _ rfl htr' (Or.inl hx)⟩)
    have := hsession.append hquiet
    rwa [List.append_assoc, List.singleton_append] at this

end DisciplineAux

open DisciplineAux

/-- Exactly those runs of the app keep to the upload discipline in which every `ADD` or `LAST` that passes the checks of
`process_chunk` comes directly after an `INIT` or an `ADD` that passed them, with no other `SIGN` APDU in between. -/
theorem disciplined_iff (d₀ : Device) (tr : List Step) (d : Device) (h : Run (Device.step P) d₀ tr d) :
    Disciplined P tr ↔ ∀ pre e post, tr = pre ++ e :: post →
      Passes P p1Add e.before e.input ∨ Passes P p1Last e.before e.input → AfterPassed P pre := by
  constructor
  · intro hdisc pre e post htr hpass
    obtain ⟨hrun, hstep⟩ := h.split htr
    have hin : InSession P pre := by
      refine hdisc pre e post htr ?_
      rw [hstep]
      exact (accepted_iff P).2 hpass
    -- the last `SIGN` APDU since the `INIT` did not end the session
    have hlast := hin.last fun x hx => (⟨_, hx.1⟩ : IsSign x)
    obtain ⟨p, x, m, rfl, ⟨hsign, hx⟩, hm⟩ := hlast
    have hxstep := (hrun.split rfl).2
    refine ⟨p, x, m, rfl, ?_, hm⟩
    rcases hx with hx | hx
    · rw [hxstep] at hx
      exact Or.inl ((initDone_iff P).1 hx)
    · rw [hxstep] at hsign hx
      exact passes_of_not_ends P hsign hx
  · intro hall pre e post htr hacc
    have hstep := (h.split htr).2
    rw [hstep] at hacc
    exact inSession_of_afterPassed P h hall _ pre e post rfl htr ((accepted_iff P).1 hacc)

end

/-- The discipline on a run that starts an upload and adds a chunk. -/
theorem disciplined_iff_one_chunk :
    Disciplined Demo.platform
      (trace (Device.step Demo.platform) (Demo.device 8) [Demo.sign p1Init [], Demo.sign p1Add [1]]) := by
  refine (disciplined_iff Demo.platform _ _ _ (run_trace _ _ _)).2 ?_
  intro pre e post htr hpass
  simp only [trace] at htr
  rcases List.cons_eq_append_iff.1 htr with ⟨rfl, hcons⟩ | ⟨pre', rfl, htr'⟩
  · -- the first step is no `ADD` and no `LAST`
    obtain ⟨rfl, -⟩ := List.cons.inj hcons
    rcases hpass with ⟨a, ha, -, -, h1, -⟩ | ⟨a, ha, -, -, h1, -⟩ <;> cases ha <;> exact absurd h1 (by decide)
  rcases List.cons_eq_append_iff.1 htr' with ⟨rfl, hcons⟩ | ⟨pre'', rfl, htr''⟩
  · refine ⟨[], _, [], rfl, Or.inl ?_, by simp⟩
    exact ⟨Demo.apdu insSign p1Init 0 [], rfl, by decide, by decide, by decide, fun h => absurd rfl h, fun h => by cases h⟩
  · simp at htr''

/-- After a `LAST` was parsed and refused, an `ADD` is still accepted, without a new `INIT`. -/
theorem not_disciplined_add_after_last :
    ¬Disciplined Demo.platform (trace (Device.step Demo.platform) (Demo.device 8)
      [Demo.sign p1Init [], Demo.sign p1Last [1], Demo.sign p1Add [2]]) := by
  intro h
  have hin := h [_, _] _ [] rfl (Or.inl ⟨Or.inl ⟨Demo.apdu insSign p1Add 0 [2], rfl, by decide, by decide, by decide⟩,
    Or.inl ⟨[], by decide +kernel⟩⟩)
  rcases since_concat.1 (show Since _ _ ([_] ++ [_]) from hin) with ⟨⟨a, ha, -, -, h1⟩, -⟩ | ⟨hno, -⟩
  · cases ha
    exact absurd h1 (by decide)
  · exact hno (Or.inl ⟨_, _, rfl, by decide +kernel, rfl⟩)

end LedgerArweave
