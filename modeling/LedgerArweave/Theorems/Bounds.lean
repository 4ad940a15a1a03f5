import LedgerArweave.Parser.Traced

/-!
# The bounds of the parser

At every point of `_read`, on every buffer: the offset stays inside the buffer and moves forward only, every byte that is read
lies in the buffer, an element that was read is the slice that ends at the offset, no two of them overlap, and no tag entry
behind the array is written.
-/

namespace LedgerArweave

open Lib

/-- The entry the loop over the tags starts with. -/
def ReadStep.tagStarted : ReadStep → Option Nat
  | .tag i => some i
  | _ => none

/-- The tag entry an element is part of. -/
def ElementLoc.tagIdx : ElementLoc → Option Nat
  | .tagKey i => some i
  | .tagValue i => some i
  | _ => none

/-- The tag entry a step writes into. -/
def ReadStep.tagWritten : ReadStep → Option Nat
  | .number (.len l) => l.tagIdx
  | .pointer l => l.tagIdx
  | _ => none

/-- A point of a run over the `n` bytes from `base` on keeps the bounds: the offset is inside the buffer, a byte that is read is
one of the buffer, a move of the offset is not cut to 16 bits, and an element that was read ends at the offset. -/
def Point.InBuffer (base n : Nat) (p : Point ReadStep ParseState) : Prop :=
  p.state.c.bufferLen = n ∧ p.state.c.offset ≤ n ∧
    (∀ addr, p.did = .byte addr → base ≤ addr ∧ addr < base + n) ∧
    (∀ o size, p.did = .advance o size → o + size < 65536 ∧ p.state.c.offset = o + size) ∧
    ∀ l, p.did = .element l → (p.state.v.element l).len ≤ p.state.c.offset ∧
      (p.state.v.element l).ptr = some (base + (p.state.c.offset - (p.state.v.element l).len))

/-- The second of two elements lies behind the first, with its length between them. -/
def Point.Apart (p q : Point ReadStep ParseState) : Prop :=
  ∀ l l', p.did = .element l → q.did = .element l' →
    p.state.c.offset + 2 + (q.state.v.element l').len ≤ q.state.c.offset

namespace BoundsAux

/-- What holds at every point of a run: `k` tag entries were started, and the elements read so far end at or before `last`. -/
structure Bounded (base n k last : Nat) (t : ReadTrace) : Prop where
  buffer : t.state.c.buffer = some base
  bufferLen : t.state.c.bufferLen = n
  inside : t.state.c.offset ≤ n
  last_le : last ≤ t.state.c.offset
  points : ∀ p ∈ t.trace, Point.InBuffer base n p
  order : t.trace.Pairwise fun p q => p.state.c.offset ≤ q.state.c.offset
  reached : ∀ p ∈ t.trace, p.state.c.offset ≤ t.state.c.offset
  apart : t.trace.Pairwise Point.Apart
  ends : ∀ p ∈ t.trace, ∀ l, p.did = .element l → p.state.c.offset ≤ last
  tags : t.trace.filterMap (fun p => p.did.tagStarted) = List.range k
  written : ∀ p ∈ t.trace, ∀ i, p.did.tagWritten = some i → i < k

variable {mem : Mem} {base n k last : Nat} {t : ReadTrace}

/-- One point more. -/
theorem Bounded.push (h : Bounded base n k last t) {k' last' : Nat} {i : ReadStep} {f : ParseState → ParseState}
    (hbuffer : (f t.state).c.buffer = t.state.c.buffer) (hlen : (f t.state).c.bufferLen = t.state.c.bufferLen)
    (hle : t.state.c.offset ≤ (f t.state).c.offset) (hp : Point.InBuffer base n ⟨i, f t.state⟩)
    (hapart : ∀ l, i = .element l → last + 2 + ((f t.state).v.element l).len ≤ (f t.state).c.offset)
    (hlast : last ≤ last') (hend : ∀ l, i = .element l → (f t.state).c.offset ≤ last') (hlast' : last' ≤ (f t.state).c.offset)
    (htags : List.range k ++ i.tagStarted.toList = List.range k') (hk : k ≤ k') (hw : ∀ j, i.tagWritten = some j → j < k') :
    Bounded base n k' last' (t.step i f) where
  buffer := hbuffer.trans h.buffer
  bufferLen := hlen.trans h.bufferLen
  inside := hp.2.1
  last_le := hlast'
  points := by
    intro p hmem
    rcases List.mem_append.1 hmem with hold | hnew
    · exact h.points p hold
    · rw [List.mem_singleton.1 hnew]
      exact hp
  order := by
    refine List.pairwise_append.2 ⟨h.order, List.pairwise_singleton _ _, ?_⟩
    intro p hold q hnew
    rw [List.mem_singleton.1 hnew]
    exact Nat.le_trans (h.reached p hold) hle
  reached := by
    intro p hmem
    rcases List.mem_append.1 hmem with hold | hnew
    · exact Nat.le_trans (h.reached p hold) hle
    · rw [List.mem_singleton.1 hnew]
      exact Nat.le_refl _
  apart := by
    refine List.pairwise_append.2 ⟨h.apart, List.pairwise_singleton _ _, ?_⟩
    intro p hold q hnew l l' hl hl'
    rw [List.mem_singleton.1 hnew] at hl' ⊢
    have h1 := h.ends p hold l hl
    have h2 := hapart l' hl'
    show p.state.c.offset + 2 + ((f t.state).v.element l').len ≤ (f t.state).c.offset
    omega
  ends := by
    intro p hmem l hl
    rcases List.mem_append.1 hmem with hold | hnew
    · exact Nat.le_trans (h.ends p hold l hl) hlast
    · rw [List.mem_singleton.1 hnew] at hl ⊢
      exact hend l hl
  tags := by
    rw [Traced.step, List.filterMap_append, h.tags, ← htags]
    congr 1
  written := by
    intro p hmem j hj
    rcases List.mem_append.1 hmem with hold | hnew
    · exact Nat.lt_of_lt_of_le (h.written p hold j hj) hk
    · rw [List.mem_singleton.1 hnew] at hj
      exact hw j hj

/-- A step that leaves the context alone. -/
theorem Bounded.stay (h : Bounded base n k last t) {i : ReadStep} {f : ParseState → ParseState}
    (hc : (f t.state).c = t.state.c) (hbyte : ∀ addr, i = .byte addr → base ≤ addr ∧ addr < base + n)
    (hadvance : ∀ o size, i ≠ .advance o size) (helement : ∀ l, i ≠ .element l) (htag : i.tagStarted = none)
    (hw : ∀ j, i.tagWritten = some j → j < k) : Bounded base n k last (t.step i f) := by
  have hp : Point.InBuffer base n ⟨i, f t.state⟩ := by
    refine ⟨?_, ?_, hbyte, fun o size ho => absurd ho (hadvance o size), fun l hl => absurd hl (helement l)⟩
    · exact (congrArg ParserContext.bufferLen hc).trans h.bufferLen
    · exact Nat.le_trans (Nat.le_of_eq (congrArg ParserContext.offset hc)) h.inside
  refine h.push (by rw [hc]) (by rw [hc]) (Nat.le_of_eq (congrArg ParserContext.offset hc.symm)) hp
    (fun l hl => absurd hl (helement l)) (Nat.le_refl _) (fun l hl => absurd hl (helement l)) (by rw [hc]; exact h.last_le) ?_
    (Nat.le_refl _) hw
  rw [htag, Option.toList_none, List.append_nil]

/-- Looking at a byte of the buffer. -/
theorem Bounded.byte (h : Bounded base n k last t) {i : Nat} (hi : i < n) :
    Bounded base n k last (t.step (.byte (addrOf t.state.c.buffer i)) id) := by
  refine h.stay rfl ?_ (fun _ _ => nofun) (fun _ => nofun) rfl nofun
  intro addr heq
  cases heq
  rw [addrOf, h.buffer, Option.getD_some]
  omega

/-- Storing a number, in an entry of the tags that was started or elsewhere. -/
theorem Bounded.number (h : Bounded base n k last t) {l : U16Loc} (hl : ∀ j, (ReadStep.number l).tagWritten = some j → j < k)
    {f : ParseState → ParseState} (hc : (f t.state).c = t.state.c) : Bounded base n k last (t.step (.number l) f) :=
  h.stay hc nofun (fun _ _ => nofun) (fun _ => nofun) rfl hl

/-- Storing a pointer, likewise. -/
theorem Bounded.pointer (h : Bounded base n k last t) {l : ElementLoc} (hl : ∀ j, l.tagIdx = some j → j < k)
    {f : ParseState → ParseState} (hc : (f t.state).c = t.state.c) : Bounded base n k last (t.step (.pointer l) f) :=
  h.stay hc nofun (fun _ _ => nofun) (fun _ => nofun) rfl hl

/-- The offset moves on inside the buffer. -/
theorem Bounded.advance (h : Bounded base n k last t) (hn : n < 65536) {size : Nat} (hroom : t.state.c.offset + size ≤ n) :
    Bounded base n k last
      (t.step (.advance t.state.c.offset size) fun s => { s with c.offset := (s.c.offset + size) % 65536 }) := by
  have hmod : (t.state.c.offset + size) % 65536 = t.state.c.offset + size := Nat.mod_eq_of_lt (by omega)
  have hp : Point.InBuffer base n ⟨.advance t.state.c.offset size,
      { t.state with c.offset := (t.state.c.offset + size) % 65536 }⟩ := by
    refine ⟨h.bufferLen, by rw [hmod]; exact hroom, nofun, ?_, nofun⟩
    intro o m ho
    cases ho
    exact ⟨by omega, hmod⟩
  have hmoved : t.state.c.offset ≤ (t.state.c.offset + size) % 65536 := by omega
  exact h.push rfl rfl hmoved hp nofun (Nat.le_refl _) nofun (Nat.le_trans h.last_le hmoved) (List.append_nil _)
    (Nat.le_refl _) nofun

/-- An element was read: it ends at the offset, and its length stands between it and the elements before. -/
theorem Bounded.element (h : Bounded base n k last t) {l : ElementLoc}
    (hroom : last + 2 + (t.state.v.element l).len ≤ t.state.c.offset)
    (hptr : (t.state.v.element l).ptr = some (base + (t.state.c.offset - (t.state.v.element l).len))) :
    Bounded base n k t.state.c.offset (t.step (.element l) id) := by
  have hp : Point.InBuffer base n ⟨.element l, t.state⟩ := by
    refine ⟨h.bufferLen, h.inside, nofun, nofun, ?_⟩
    intro l' hl'
    cases hl'
    exact ⟨Nat.le_trans (Nat.le_add_left _ _) hroom, hptr⟩
  refine h.push rfl rfl (Nat.le_refl _) hp ?_ h.last_le (fun _ _ => Nat.le_refl _) (Nat.le_refl _) (List.append_nil _)
    (Nat.le_refl _) nofun
  intro l' hl'
  cases hl'
  exact hroom

/-- The loop goes on to the next tag entry. -/
theorem Bounded.tag (h : Bounded base n k last t) : Bounded base n (k + 1) last (t.step (.tag k) id) := by
  have hp : Point.InBuffer base n ⟨.tag k, t.state⟩ := ⟨h.bufferLen, h.inside, nofun, nofun, nofun⟩
  exact h.push rfl rfl (Nat.le_refl _) hp nofun (Nat.le_refl _) nofun h.last_le List.range_succ.symm (Nat.le_succ k) nofun

/-! ## The readers -/

/-- The check of the rest of the buffer. -/
theorem run_ctxCheckAvail (size : Nat) (t : ReadTrace) :
    (Traced.ctxCheckAvail size).run t =
      if t.state.c.offset + size ≤ t.state.c.bufferLen then .ok () t else .error .unexpectedBufferEnd t := by
  unfold Traced.ctxCheckAvail
  rw [run_bind_of_ok (run_get t), run_ite]
  by_cases h : t.state.c.offset + size ≤ t.state.c.bufferLen
  · rw [if_neg (by omega), if_pos h]
    rfl
  · rw [if_pos (by omega), if_neg h]
    rfl

/-- The offset moves when there is enough left. -/
theorem run_ctxCheckAndAdvance (size : Nat) (t : ReadTrace) :
    (Traced.ctxCheckAndAdvance size).run t =
      if t.state.c.offset + size ≤ t.state.c.bufferLen then
        .ok () (t.step (.advance t.state.c.offset size) fun s => { s with c.offset := (s.c.offset + size) % 65536 })
      else .error .unexpectedBufferEnd t := by
  unfold Traced.ctxCheckAndAdvance
  by_cases h : t.state.c.offset + size ≤ t.state.c.bufferLen
  · rw [run_bind_of_ok ((run_ctxCheckAvail size t).trans (if_pos h)), if_pos h]
    rfl
  · rw [run_bind_of_error ((run_ctxCheckAvail size t).trans (if_neg h)), if_neg h]

/-- The points of a read of a number. -/
def numberRead (mem : Mem) (l : U16Loc) (t : ReadTrace) : ReadTrace :=
  (Traced.tookU16 mem l t).step (.advance t.state.c.offset 2) fun s => { s with c.offset := (s.c.offset + 2) % 65536 }

/-- A number is read when there are two bytes left. -/
theorem run_parserReadU16 (mem : Mem) (l : U16Loc) (t : ReadTrace) :
    (Traced.parserReadU16 mem l).run t =
      if t.state.c.offset + 2 ≤ t.state.c.bufferLen then .ok () (numberRead mem l t) else .error .unexpectedBufferEnd t := by
  unfold Traced.parserReadU16
  by_cases h : t.state.c.offset + 2 ≤ t.state.c.bufferLen
  · rw [run_bind_of_ok ((run_ctxCheckAvail 2 t).trans (if_pos h)), if_pos h]
    exact (run_ctxCheckAndAdvance 2 (Traced.tookU16 mem l t)).trans (if_pos h)
  · rw [run_bind_of_error ((run_ctxCheckAvail 2 t).trans (if_neg h)), if_neg h]

/-- A number is read inside the buffer, and its place is no tag entry that was not started. -/
theorem Bounded.numberRead (h : Bounded base n k last t) (hn : n < 65536) (hroom : t.state.c.offset + 2 ≤ n) {l : U16Loc}
    (hl : ∀ j, (ReadStep.number l).tagWritten = some j → j < k) : Bounded base n k last (numberRead mem l t) := by
  have h1 := h.byte (i := t.state.c.offset) (by omega)
  have h2 := h1.number hl (f := fun s => { s with v := s.v.setU16 l (ofBe16 (byteAt mem t.state.c.buffer t.state.c.offset) 0) }) rfl
  have h3 := h2.byte (i := t.state.c.offset + 1) hroom
  have h4 := h3.number hl (f := fun s => { s with v := s.v.setU16 l (next16 mem t.state.c) }) rfl
  exact h4.advance hn hroom

/-- The element whose points end here is the slice that ends at the offset. -/
def EndsHere (base : Nat) (l : ElementLoc) (t : ReadTrace) : Prop :=
  (t.state.v.element l).len ≤ t.state.c.offset ∧
    (t.state.v.element l).ptr = some (base + (t.state.c.offset - (t.state.v.element l).len))

/-- What holds between the calls of the readers: the bounds, wherever the last element ended. -/
def Safe (base n k : Nat) (t : ReadTrace) : Prop := ∃ last, Bounded base n k last t

/-- Behind its length, an element that fits is read, and it ends at the offset. -/
theorem run_storeElement (h : Bounded base n k last t) (hn : n < 65536) {l : ElementLoc} (hl : l.InBounds)
    (hk : ∀ j, l.tagIdx = some j → j < k) (hlast : last + 2 ≤ t.state.c.offset)
    (hfits : t.state.c.offset + (t.state.v.element l).len ≤ n) :
    ∃ t', (perform (.pointer l) (Traced.storePtr l) >>= fun _ =>
        Traced.ctxCheckAndAdvance (t.state.v.element l).len >>= fun _ => perform (.element l) id).run t = .ok () t' ∧
      Safe base n k t' ∧ EndsHere base l t' := by
  generalize hsize : (t.state.v.element l).len = size at hfits
  have hptr : Bounded base n k last (t.step (.pointer l) (Traced.storePtr l)) := h.pointer hk rfl
  have hrun := run_ctxCheckAndAdvance size (t.step (.pointer l) (Traced.storePtr l))
  rw [hptr.bufferLen, if_pos (by exact hfits)] at hrun
  have hadv := hptr.advance hn (show (t.step (.pointer l) (Traced.storePtr l)).state.c.offset + size ≤ n from hfits)
  generalize ht : ((t.step (.pointer l) (Traced.storePtr l)).step
    (.advance (t.step (.pointer l) (Traced.storePtr l)).state.c.offset size) fun s =>
      { s with c.offset := (s.c.offset + size) % 65536 }) = t' at hadv hrun
  have hoff : t'.state.c.offset = t.state.c.offset + size := by
    rw [← ht]
    exact Nat.mod_eq_of_lt (show t.state.c.offset + size < 65536 by omega)
  have hel : t'.state.v.element l = ⟨size, some (base + t.state.c.offset)⟩ := by
    rw [← ht, ← hsize]
    show (Traced.storePtr l t.state).v.element l = _
    rw [Traced.storePtr, ParserTx.element_setElement_self _ hl, h.buffer, Option.getD_some]
  have hends : EndsHere base l t' := by
    rw [EndsHere, hel, hoff, Nat.add_sub_cancel]
    exact ⟨Nat.le_add_left _ _, rfl⟩
  have hroom : last + 2 + (t'.state.v.element l).len ≤ t'.state.c.offset := by
    rw [hel, hoff]
    exact Nat.add_le_add_right hlast size
  refine ⟨t'.step (.element l) id, ?_, ⟨_, hadv.element hroom hends.2⟩, hends⟩
  rw [run_bind_of_ok (run_perform _ _ _), run_bind_of_ok hrun, run_perform]

/-- Reading an element keeps the bounds, also when it fails. -/
theorem safe_parserReadElement (hn : n < 65536) {l : ElementLoc} (hl : l.InBounds) (hk : ∀ j, l.tagIdx = some j → j < k) :
    Triple (Safe base n k) (Traced.parserReadElement mem l) (fun _ t => Safe base n k t ∧ EndsHere base l t)
      fun _ => Safe base n k := by
  rintro t ⟨last, h⟩
  have hrun := run_parserReadU16 mem (.len l) t
  rw [h.bufferLen] at hrun
  by_cases hroom : t.state.c.offset + 2 ≤ n
  · rw [if_pos hroom] at hrun
    have hnum : Bounded base n k last (numberRead mem (.len l) t) := h.numberRead hn hroom hk
    have hoff : (numberRead mem (.len l) t).state.c.offset = t.state.c.offset + 2 := by
      show ((Traced.tookU16 mem (.len l) t).state.c.offset + 2) % 65536 = t.state.c.offset + 2
      rw [Traced.state_tookU16]
      exact Nat.mod_eq_of_lt (show t.state.c.offset + 2 < 65536 by omega)
    generalize numberRead mem (.len l) t = t₁ at hrun hnum hoff
    have hcheck := run_ctxCheckAvail (t₁.state.v.element l).len t₁
    rw [hnum.bufferLen] at hcheck
    by_cases hfits : t₁.state.c.offset + (t₁.state.v.element l).len ≤ n
    · rw [if_pos hfits] at hcheck
      have hlast := h.last_le
      obtain ⟨t', hstore, hsafe⟩ := run_storeElement hnum hn hl hk (by omega) hfits
      exact Triple.at_ok (by rw [Traced.parserReadElement, run_bind_of_ok hrun, run_bind_of_ok (run_get _),
        run_bind_of_ok hcheck, hstore]) hsafe
    · rw [if_neg hfits] at hcheck
      exact Triple.at_error (by rw [Traced.parserReadElement, run_bind_of_ok hrun, run_bind_of_ok (run_get _),
        run_bind_of_error hcheck]) ⟨last, hnum⟩
  · rw [if_neg hroom] at hrun
    exact Triple.at_error (by rw [Traced.parserReadElement, run_bind_of_error hrun]) ⟨last, h⟩

/-- The same of a reader behind which nothing is said of the element. -/
theorem keeps_parserReadElement (hn : n < 65536) {l : ElementLoc} (hl : l.InBounds) (hk : ∀ j, l.tagIdx = some j → j < k) :
    Keeps (Safe base n k) (Traced.parserReadElement mem l) :=
  (safe_parserReadElement hn hl hk).conseq (fun _ h => h) (fun _ _ h => h.1) fun _ _ h => h

/-- The tag count. -/
theorem keeps_readTagsCount (hn : n < 65536) : Keeps (Safe base n k) (Traced.parserReadU16 mem .tagsCount) := by
  rintro t ⟨last, h⟩
  have hrun := run_parserReadU16 mem .tagsCount t
  rw [h.bufferLen] at hrun
  by_cases hroom : t.state.c.offset + 2 ≤ n
  · rw [if_pos hroom] at hrun
    exact Triple.at_ok hrun ⟨last, h.numberRead hn hroom nofun⟩
  · rw [if_neg hroom] at hrun
    exact Triple.at_error hrun ⟨last, h⟩

/-- A check leaves everything as it is. -/
theorem safe_rejectUnless (ok : ParserTx → Bool) (e : ParserError) :
    Triple (Safe base n k) (Traced.rejectUnless ok e) (fun _ t => Safe base n k t ∧ ok t.state.v = true)
      fun _ => Safe base n k := by
  intro t h
  have hrun : (Traced.rejectUnless ok e).run t = if ok t.state.v then .ok () t else .error e t := by
    rw [Traced.rejectUnless, run_bind_of_ok (run_get t), run_ite]
    rfl
  by_cases hok : ok t.state.v = true
  · exact Triple.at_ok (hrun.trans (if_pos hok)) ⟨h, hok⟩
  · exact Triple.at_error (hrun.trans (if_neg hok)) h

/-- The byte the check of the format reads is the last one that was read. -/
theorem safe_rejectUnlessFormatOk :
    Triple (fun t => Safe base n k t ∧ EndsHere base .format t) (Traced.rejectUnlessFormatOk mem) (fun _ => Safe base n k)
      fun _ => Safe base n k := by
  rintro t ⟨⟨last, h⟩, hlen, hptr⟩
  by_cases hone : t.state.v.format.len = 1
  · have hin := h.inside
    have haddr : addrOf t.state.v.format.ptr 0 = addrOf t.state.c.buffer (t.state.c.offset - 1) := by
      rw [show t.state.v.format.ptr = some (base + (t.state.c.offset - t.state.v.format.len)) from hptr, hone, h.buffer]
      rfl
    replace hlen : t.state.v.format.len ≤ t.state.c.offset := hlen
    have hread : Bounded base n k last (t.step (.byte (addrOf t.state.v.format.ptr 0)) id) := by
      rw [haddr]
      exact h.byte (by omega)
    have hrun : (Traced.rejectUnlessFormatOk mem).run t =
        if mem.getD (addrOf t.state.v.format.ptr 0) 0 = 50 then .ok () (t.step (.byte (addrOf t.state.v.format.ptr 0)) id)
        else .error .unexpectedTxVersion (t.step (.byte (addrOf t.state.v.format.ptr 0)) id) := by
      rw [Traced.rejectUnlessFormatOk, run_bind_of_ok (run_get t), if_pos hone]
      exact run_ite _ _ _ _
    by_cases hok : mem.getD (addrOf t.state.v.format.ptr 0) 0 = 50
    · exact Triple.at_ok (hrun.trans (if_pos hok)) ⟨last, hread⟩
    · exact Triple.at_error (hrun.trans (if_neg hok)) ⟨last, hread⟩
  · have hrun : (Traced.rejectUnlessFormatOk mem).run t = .error .unexpectedTxVersion t := by
      rw [Traced.rejectUnlessFormatOk, run_bind_of_ok (run_get t), if_neg hone, run_throw]
    exact Triple.at_error hrun ⟨last, h⟩

/-- What holds wherever a run stops: the entries the loop started with are entries of the array. -/
def Reached (base n : Nat) (t : ReadTrace) : Prop := ∃ k ≤ 16, Safe base n k t

/-- A reader that stops stops inside the bounds. -/
theorem reached_of_safe {P : ReadTrace → Prop} {Q : Unit → ReadTrace → Prop} {x : TracedReader Unit} (hk : k ≤ 16)
    (h : Triple P x Q fun _ => Safe base n k) : Triple P x Q fun _ => Reached base n :=
  h.conseq (fun _ h => h) (fun _ _ h => h) fun _ _ h => ⟨k, hk, h⟩

/-- The loop over the tags starts with one entry after the other. -/
theorem safe_readTags (hn : n < 65536) (m : Nat) (hm : k + m ≤ 16) :
    Triple (Safe base n k) (Traced.readTags mem m k) (fun _ => Safe base n (k + m)) fun _ => Reached base n := by
  induction m generalizing k with
  | zero => exact .pure fun _ h => h
  | succ m ih =>
    have hkey : Keeps (Safe base n (k + 1)) (Traced.parserReadElement mem (.tagKey k)) :=
      keeps_parserReadElement hn (show k < 16 by omega) (by rintro j ⟨⟩; exact Nat.lt_succ_self k)
    have hvalue : Keeps (Safe base n (k + 1)) (Traced.parserReadElement mem (.tagValue k)) :=
      keeps_parserReadElement hn (show k < 16 by omega) (by rintro j ⟨⟩; exact Nat.lt_succ_self k)
    have htag : Triple (Safe base n (k + 1)) (Traced.parserReadTag mem k) (fun _ => Safe base n (k + 1))
        fun _ => Reached base n := reached_of_safe (by omega) (hkey.bind fun _ => hvalue)
    have hrest := ih (k := k + 1) (by omega)
    rw [show k + 1 + m = k + (m + 1) by omega] at hrest
    exact .bind (.modify fun _ ⟨last, h⟩ => ⟨last, h.tag⟩) fun _ => htag.bind fun _ => hrest

/-- `_read` keeps the bounds from end to end, also when it stops with an error. -/
theorem safe_read (hn : n < 65536) :
    Triple (Safe base n 0) (Traced.read mem) (fun _ => Reached base n) fun _ => Reached base n := by
  have next : ∀ {k} (l : ElementLoc), k ≤ 16 → l.InBounds → (∀ j, l.tagIdx = some j → j < k) →
      Triple (Safe base n k) (Traced.parserReadElement mem l) (fun _ => Safe base n k) fun _ => Reached base n :=
    fun l hk hl ht => reached_of_safe hk (keeps_parserReadElement hn hl ht)
  have hcheck : ∀ ok e, Triple (Safe base n 0) (Traced.rejectUnless ok e) (fun _ t => Safe base n 0 t ∧ ok t.state.v = true)
      fun _ => Reached base n := fun ok e => reached_of_safe (by decide) (safe_rejectUnless ok e)
  refine .bind (reached_of_safe (by decide) (safe_parserReadElement hn (l := .format) trivial nofun)) fun _ =>
    .bind (reached_of_safe (by decide) safe_rejectUnlessFormatOk) fun _ => .bind (next .owner (by decide) trivial nofun) fun _ =>
    .bind (hcheck _ _) fun _ => .bind ((next .target (by decide) trivial nofun).conseq (fun _ h => h.1) (fun _ _ h => h)
      fun _ _ h => h) fun _ =>
    .bind (next .quantity (by decide) trivial nofun) fun _ => .bind (next .reward (by decide) trivial nofun) fun _ =>
    .bind (next .lastTx (by decide) trivial nofun) fun _ => .bind (reached_of_safe (by decide) (keeps_readTagsCount hn)) fun _ =>
    .bind (hcheck _ _) fun _ => ?_
  rintro t ⟨h, hmax⟩
  have hle : 0 + t.state.v.tagsCount ≤ 16 := by
    rw [Nat.zero_add]
    exact of_decide_eq_true hmax
  have hroot : Triple (Safe base n (0 + t.state.v.tagsCount)) (Traced.parserReadElement mem .dataRoot)
      (fun _ => Reached base n) fun _ => Reached base n :=
    (next .dataRoot hle trivial nofun).conseq (fun _ h => h) (fun _ _ h => ⟨_, hle, h⟩) fun _ _ h => h
  rw [run_bind_of_ok (run_get t)]
  exact ((safe_readTags hn _ hle).bind fun _ => (next .dataSize hle trivial nofun).bind fun _ => hroot) t h

/-- Where `_read` starts, nothing was read. -/
theorem safe_start (base n : Nat) (v : ParserTx) : Safe base n 0 ⟨⟨⟨some base, n, 0⟩, v⟩, []⟩ := by
  have hnone : ∀ {P : Point ReadStep ParseState → Prop}, ∀ p ∈ ([] : List (Point ReadStep ParseState)), P p := by simp
  exact ⟨0, rfl, rfl, Nat.zero_le _, Nat.le_refl _, hnone, .nil, hnone, .nil, hnone, rfl, hnone⟩

/-- Every point that a parse comes to is inside the bounds. -/
theorem reached_parserParse (mem : Mem) (base : Nat) {n : Nat} (hpos : 1 ≤ n) (hn : n < 65536) (s : ParseState) :
    Reached base n (stateAfter ((Traced.parserParse mem (some base) n).run ⟨s, []⟩)) := by
  have hinit : (parserInit (some base) n).run s = .ok () { s with c := ⟨some base, n, 0⟩ } := by
    rw [run_parserInit, Nat.mod_eq_of_lt hn, if_neg (by simp; omega)]
  have hzoom : (zoom Traced.state (fun s t => { t with state := s }) (parserInit (some base) n) : TracedReader Unit).run ⟨s, []⟩ =
      .ok () ⟨{ s with c := ⟨some base, n, 0⟩ }, []⟩ := by
    rw [run_zoom, hinit]
  have hrun : (Traced.parserParse mem (some base) n).run ⟨s, []⟩ =
      (Traced.read mem).run ⟨{ s with c := ⟨some base, n, 0⟩ }, []⟩ := by
    rw [Traced.parserParse, if_neg (by omega), run_bind_of_ok hzoom]
  rw [hrun]
  have hsafe : Triple (Safe base n 0) (Traced.read mem) (fun _ => Reached base n) fun _ => Reached base n := safe_read hn
  obtain ⟨hok, herror⟩ := hsafe _ (safe_start base n s.v)
  cases hread : (Traced.read mem).run ⟨{ s with c := ⟨some base, n, 0⟩ }, []⟩ with
  | ok a t => exact hok a t hread
  | error e t => exact herror e t hread

end BoundsAux

open BoundsAux

/-- Every run of `parser_parse` on a buffer of 1 to 65535 bytes, whether it succeeds or not, step by step: without the notes it is
the run of the model; at every point the offset is at most the length of the buffer, every byte that is read is one of the
buffer, and no move of the offset wraps; the offset never decreases; an element that was read is the slice of its length that
ends at the offset; elements do not overlap; and the tag entries written are entries of the array, started with one after the
other. -/
theorem parserParse_bounds (mem : Mem) (base n : Nat) (hpos : 1 ≤ n) (hn : n < 65536) (hmem : base + n ≤ mem.length)
    (s : ParseState) :
    untraced ((Traced.parserParse mem (some base) n).run ⟨s, []⟩) = (parserParse mem (some base) n).run s ∧
      let t := stateAfter ((Traced.parserParse mem (some base) n).run ⟨s, []⟩)
      t.state.c.offset ≤ n ∧ (∀ p ∈ t.trace, Point.InBuffer base n p) ∧
      (t.trace.Pairwise fun p q => p.state.c.offset ≤ q.state.c.offset) ∧
      (∀ p ∈ t.trace, p.state.c.offset ≤ t.state.c.offset) ∧
      (∀ p ∈ t.trace, ∀ l, p.did = .element l →
        (p.state.v.element l).bytes mem =
          slice mem (base + (p.state.c.offset - (p.state.v.element l).len)) (p.state.v.element l).len ∧
        ((p.state.v.element l).bytes mem).length = (p.state.v.element l).len) ∧
      t.trace.Pairwise Point.Apart ∧
      ∃ k ≤ 16, t.trace.filterMap (fun p => p.did.tagStarted) = List.range k ∧
        ∀ p ∈ t.trace, ∀ i, p.did.tagWritten = some i → i < k := by
  refine ⟨Traced.erases_parserParse mem (some base) n ⟨s, []⟩, ?_⟩
  obtain ⟨k, hk, last, h⟩ := reached_parserParse mem base hpos hn s
  refine ⟨h.inside, h.points, h.order, h.reached, ?_, h.apart, k, hk, h.tags, h.written⟩
  intro p hp l hl
  obtain ⟨-, hin, -, -, helement⟩ := h.points p hp
  obtain ⟨hlen, hptr⟩ := helement l hl
  have hbytes : (p.state.v.element l).bytes mem =
      slice mem (base + (p.state.c.offset - (p.state.v.element l).len)) (p.state.v.element l).len := by
    rw [ParserElement.bytes, hptr]
  exact ⟨hbytes, by rw [hbytes, length_slice (by omega)]⟩

/-- A format, and one byte of the length of the owner: four bytes are read, and the run stops inside the buffer. -/
theorem parserParse_bounds_short :
    let t := stateAfter ((Traced.parserParse [7, 0, 1, 50, 0, 9] (some 1) 4).run ⟨⟨ParserContext.zero, ParserTx.zero⟩, []⟩)
    t.state.c.offset ≤ 4 ∧ (∀ p ∈ t.trace, Point.InBuffer 1 4 p) ∧
      t.trace.Pairwise fun p q => p.state.c.offset ≤ q.state.c.offset := by
  obtain ⟨-, hinside, hpoints, hgrows, -⟩ := parserParse_bounds [7, 0, 1, 50, 0, 9] 1 4 (by decide) (by decide) (by decide)
    ⟨ParserContext.zero, ParserTx.zero⟩
  exact ⟨hinside, hpoints, hgrows⟩

end LedgerArweave
