import LedgerArweave.Parser.Digest
import LedgerArweave.Lib.Coupled
import LedgerArweave.Theorems.ParsedState
import LedgerArweave.Theorems.Validation

/-!
# Parsing forgets the past

`parser_tx_obj` is never cleared, so that a parse starts with whatever earlier transactions left there. Two parses of one buffer
that start with different objects and contexts are followed side by side: at every point they agree on the context and on what
they have read, and nothing behind `parser_parse` looks at anything else.
-/

namespace LedgerArweave

open Lib

namespace ForgetsAux

variable {mem : Mem} {ls : List U16Loc} {n : Nat}

/-- Two parses at the same point: they have the same context, and they agree on what `ls` lists. Once the tag count is among
that, it is `n`. -/
structure SameSoFar (ls : List U16Loc) (n : Nat) (s t : ParseState) : Prop where
  context : t.c = s.c
  small : s.c.bufferLen < 65536
  elements : ∀ l, .len l ∈ ls → t.v.element l = s.v.element l
  count : .tagsCount ∈ ls → s.v.tagsCount = n ∧ t.v.tagsCount = n

/-- A new element is the same in both objects, and the elements read before stay as they are. -/
theorem same_readElement {l : ElementLoc} (hl : l.InBounds) :
    Coupled (SameSoFar ls n) (parserReadElement mem l) (parserReadElement mem l) fun _ => SameSoFar (ls ++ [.len l]) n := by
  intro s t h
  rw [run_parserReadElement mem hl h.small, run_parserReadElement mem hl (by rw [h.context]; exact h.small), h.context]
  split
  · split
    · refine Or.inl ⟨(), _, _, rfl, rfl, by simp only [ParseState.took, h.context], h.small, ?_, ?_⟩
      · intro l' hl'
        by_cases heq : l = l'
        · subst heq
          simp only [ParseState.took, ParserTx.element_setElement_self _ hl, h.context]
        · have hold : U16Loc.len l' ∈ ls := by
            rcases List.mem_append.1 hl' with hm | hm
            · exact hm
            · exact absurd (U16Loc.len.inj (List.mem_singleton.1 hm)).symm heq
          simp only [ParseState.took, ParserTx.element_setElement_ne _ heq, h.elements l' hold]
      · intro hc
        obtain ⟨hs, ht⟩ := h.count ((List.mem_append.1 hc).resolve_right (by simp))
        exact ⟨(s.v.tagsCount_setElement _ _).trans hs, (t.v.tagsCount_setElement _ _).trans ht⟩
    · exact Or.inr ⟨_, _, _, rfl, rfl⟩
  · exact Or.inr ⟨_, _, _, rfl, rfl⟩

/-- The tag count is the same in both objects. -/
theorem same_readTagsCount :
    Coupled (SameSoFar ls n) (parserReadU16 mem .tagsCount) (parserReadU16 mem .tagsCount)
      fun _ s t => SameSoFar (ls ++ [.tagsCount]) s.v.tagsCount s t := by
  intro s t h
  rw [run_parserReadU16 mem _ h.small, run_parserReadU16 mem _ (by rw [h.context]; exact h.small), h.context]
  split
  · refine Or.inl ⟨(), _, _, rfl, rfl, by simp only [ParseState.advance], h.small, ?_, fun _ => ⟨rfl, rfl⟩⟩
    intro l hl
    have hold : U16Loc.len l ∈ ls := (List.mem_append.1 hl).resolve_right (by simp)
    have heq := h.elements l hold
    cases l <;> exact heq
  · exact Or.inr ⟨_, _, _, rfl, rfl⟩

/-- A check of what both have read comes out the same. -/
theorem same_rejectUnless {ok : ParserTx → Bool} {e : ParserError}
    (hok : ∀ s t, SameSoFar ls n s t → ok t.v = ok s.v) :
    Coupled (SameSoFar ls n) (rejectUnless ok e) (rejectUnless ok e) fun _ s t => SameSoFar ls n s t ∧ ok s.v = true := by
  refine .get_bind fun s t hst => .ite (by rw [hok s t hst]) (fun h => .pure ?_) fun _ => .throw
  rintro s' t' ⟨rfl, rfl⟩
  exact ⟨hst, h⟩

/-- The loop over the tags. -/
theorem same_readTags (k i : Nat) (hi : i + k ≤ 16) :
    Coupled (SameSoFar ls n) (readTags mem k i) (readTags mem k i) fun _ => SameSoFar (ls ++ tagLocs k i) n := by
  induction k generalizing i ls with
  | zero =>
    rw [tagLocs, List.append_nil]
    exact .pure fun _ _ h => h
  | succ k ih =>
    have hbound : i < 16 := by omega
    have hsplit : ls ++ tagLocs (k + 1) i = ls ++ [.len (.tagKey i)] ++ [.len (.tagValue i)] ++ tagLocs k (i + 1) := by
      simp [tagLocs]
    rw [hsplit]
    exact .bind (.bind (same_readElement (l := .tagKey i) hbound) fun _ => same_readElement (l := .tagValue i) hbound)
      fun _ => ih (i + 1) (by omega)

/-- The tags and what follows them. -/
theorem same_readTail (hn : n ≤ 16) :
    Coupled (SameSoFar frontOrder n)
      (readTags mem n 0 >>= fun _ => parserReadElement mem .dataSize >>= fun _ => parserReadElement mem .dataRoot)
      (readTags mem n 0 >>= fun _ => parserReadElement mem .dataSize >>= fun _ => parserReadElement mem .dataRoot)
      fun _ => SameSoFar (readOrder n) n := by
  have hsplit : readOrder n = frontOrder ++ tagLocs n 0 ++ [.len .dataSize] ++ [.len .dataRoot] := by simp [readOrder]
  rw [hsplit]
  exact .bind (same_readTags n 0 (by omega)) fun _ => .bind (same_readElement trivial) fun _ => same_readElement trivial

/-- Two runs of `_read` in the same context stop with the same error, or they have read the same. -/
theorem same_read :
    Coupled (SameSoFar [] n) (read mem) (read mem) fun _ s t => SameSoFar (readOrder s.v.tagsCount) s.v.tagsCount s t := by
  have next : ∀ {ls} {I : ParseState → ParseState → Prop}, (∀ s t, I s t → SameSoFar ls n s t) →
      ∀ l : ElementLoc, l.InBounds →
      Coupled I (parserReadElement mem l) (parserReadElement mem l) fun _ => SameSoFar (ls ++ [.len l]) n :=
    fun hI l hl => (same_readElement hl).conseq hI fun _ _ _ h => h
  refine .bind (same_readElement (l := .format) trivial) fun _ => .bind (same_rejectUnless ?format) fun _ =>
    .bind (next (fun _ _ h => h.1) .owner trivial) fun _ => .bind (same_rejectUnless ?owner) fun _ =>
    .bind (next (fun _ _ h => h.1) .target trivial) fun _ => .bind (same_readElement trivial) fun _ =>
    .bind (same_readElement trivial) fun _ => .bind (same_readElement trivial) fun _ =>
    .bind same_readTagsCount fun _ => ?tail
  case format =>
    intro s t h
    rw [formatOk, formatOk, show t.v.format = s.v.format from h.elements .format (by simp)]
  case owner =>
    intro s t h
    simp only [show t.v.owner = s.v.owner from h.elements .owner (by simp)]
  case tail =>
    intro s t hst
    have hcount : t.v.tagsCount = s.v.tagsCount := (hst.count (by simp)).2
    refine Coupled.bind (R := SameSoFar frontOrder s.v.tagsCount) (same_rejectUnless ?max) (fun _ => .get_bind ?rest) s t hst
    case max =>
      intro s' t' h
      obtain ⟨hs, ht⟩ := h.count (by simp [frontOrder])
      rw [hs, ht]
    case rest =>
      rintro s' t' ⟨h, hmax⟩
      obtain ⟨hs, ht⟩ := h.count (by simp [frontOrder])
      beta_reduce
      rw [hs, ht]
      refine (same_readTail (n := s.v.tagsCount) (by rw [← hs]; exact of_decide_eq_true hmax)).conseq ?_ ?_
      · rintro _ _ ⟨rfl, rfl⟩
        exact h
      · intro _ s₁ t₁ h₁
        have hs₁ : s₁.v.tagsCount = s.v.tagsCount :=
          (h₁.count (List.mem_append_left _ (by simp [frontOrder]))).1
        rw [hs₁]
        exact h₁

/-- After `parser_init` nothing was read, and the contexts are the same whatever they were before. -/
theorem same_parserInit (buffer : Option Nat) (bufferSize : Nat) :
    Coupled (fun _ _ => True) (parserInit buffer bufferSize) (parserInit buffer bufferSize) fun _ => SameSoFar [] 0 := by
  intro s t _
  rw [run_parserInit, run_parserInit]
  split
  · exact Or.inr ⟨_, _, _, rfl, rfl⟩
  · exact Or.inl ⟨(), _, _, rfl, rfl, rfl, Nat.mod_lt _ (by decide), nofun, nofun⟩

/-- Two runs of `parser_parse` on one buffer. -/
theorem same_parserParse (data : Option Nat) (dataLen : Nat) :
    Coupled (fun _ _ => True) (parserParse mem data dataLen) (parserParse mem data dataLen)
      fun _ s t => t.c = s.c ∧ s.v.Agrees t.v := by
  refine .ite Iff.rfl (fun _ => .throw) fun _ => .bind (same_parserInit data dataLen) fun _ => ?_
  refine same_read.conseq (fun _ _ h => h) ?_
  intro _ s t h
  have hcount := h.count (List.mem_append_left _ (by simp [frontOrder]))
  exact ⟨h.context, hcount.2, fun l hl => h.elements l hl.mem_readOrder⟩

/-! ## What the later readers look at -/

theorem accumulateTagDigests_agrees (sha384 : Sha384) {v v' : ParserTx} (n i : Nat) (ctx : DeepHashPair)
    (h : ∀ j, j < i + n → v'.tag j = v.tag j) :
    accumulateTagDigests sha384 mem v' n i ctx = accumulateTagDigests sha384 mem v n i ctx := by
  induction n generalizing i ctx with
  | zero => rfl
  | succ n ih =>
    have hrest := fun ctx => ih (i + 1) ctx fun j hj => h j (by omega)
    simp only [accumulateTagDigests, h i (by omega), hrest]

/-- The digest depends on the elements in use only. -/
theorem parserGetDigest_agrees (sha384 : Sha384) {v v' : ParserTx} (h : v.Agrees v') (digestLen : Nat) :
    parserGetDigest sha384 mem v' digestLen = parserGetDigest sha384 mem v digestLen := by
  have hformat : v'.format = v.format := h.elements .format trivial
  have howner : v'.owner = v.owner := h.elements .owner trivial
  have htarget : v'.target = v.target := h.elements .target trivial
  have hquantity : v'.quantity = v.quantity := h.elements .quantity trivial
  have hreward : v'.reward = v.reward := h.elements .reward trivial
  have hlastTx : v'.lastTx = v.lastTx := h.elements .lastTx trivial
  have hdataSize : v'.dataSize = v.dataSize := h.elements .dataSize trivial
  have hdataRoot : v'.dataRoot = v.dataRoot := h.elements .dataRoot trivial
  have htags : ∀ ctx, accumulateTagDigests sha384 mem v' v.tagsCount 0 ctx =
      accumulateTagDigests sha384 mem v v.tagsCount 0 ctx := fun ctx =>
    accumulateTagDigests_agrees sha384 v.tagsCount 0 ctx fun i hi => h.tag (by rwa [Nat.zero_add] at hi)
  simp only [parserGetDigest, parserApplyDigestTags, h.count, htags, hformat, howner, htarget, hquantity, hreward, hlastTx,
    hdataSize, hdataRoot]

end ForgetsAux

open ForgetsAux

/-- Two runs of `parser_parse` on one buffer, whatever the object and the context held before, return the same code; and when
that is `parser_ok`, everything that looks at what they left comes out the same: the validation, the number of items, every item
in every buffer and the digest. -/
theorem parserParse_forgets (P : Platform) (mem : Mem) (data : Option Nat) (dataLen : Nat) (s t : ParseState) :
    codeOf ((parserParse mem data dataLen).run s) = codeOf ((parserParse mem data dataLen).run t) ∧
      ∀ s' t', (parserParse mem data dataLen).run s = .ok () s' → (parserParse mem data dataLen).run t = .ok () t' →
        (∀ store expert, parserValidate P mem store expert t'.v = parserValidate P mem store expert s'.v) ∧
        (∀ expert, getNumItems expert t'.v = getNumItems expert s'.v) ∧
        (∀ expert displayIdx outKeyLen outValLen pageIdx o,
          (parserGetItem P mem expert t'.v displayIdx outKeyLen outValLen pageIdx).run o =
            (parserGetItem P mem expert s'.v displayIdx outKeyLen outValLen pageIdx).run o) ∧
        ∀ digestLen, parserGetDigest P.sha384 mem t'.v digestLen = parserGetDigest P.sha384 mem s'.v digestLen := by
  have hsame : Coupled (fun _ _ => True) (parserParse mem data dataLen) (parserParse mem data dataLen)
      fun _ s t => t.c = s.c ∧ s.v.Agrees t.v := same_parserParse data dataLen
  refine ⟨hsame.codeOf_eq trivial, fun s' t' hs ht => ?_⟩
  obtain ⟨-, -, hagrees⟩ := hsame.ok trivial hs ht
  refine ⟨fun _ _ => ParsedStateAux.parserValidate_agrees P hagrees, fun _ => ParsedStateAux.getNumItems_agrees hagrees, ?_, ?_⟩
  · intro expert displayIdx outKeyLen outValLen pageIdx o
    rw [ParsedStateAux.parserGetItem_agrees P hagrees]
  · exact parserGetDigest_agrees P.sha384 hagrees

/-- An object that an earlier transaction with nine tags left. -/
def Demo.stale : ParseState where
  c := ⟨some 12, 700, 31⟩
  v := { ParserTx.zero with tagsCount := 9, tags := Vector.replicate 16 ⟨⟨3, some 40⟩, ⟨800, some 50⟩⟩, dataRoot := ⟨5, some 7⟩ }

/-- The demo transaction, parsed first of all and behind a transaction with nine tags. -/
theorem parserParse_forgets_demo :
    ∃ s' t', (parserParse Demo.tx.message (some 0) Demo.tx.message.length).run ⟨ParserContext.zero, ParserTx.zero⟩ = .ok () s' ∧
      (parserParse Demo.tx.message (some 0) Demo.tx.message.length).run Demo.stale = .ok () t' ∧
      getNumItems true t'.v = getNumItems true s'.v ∧
      parserGetDigest Demo.platform.sha384 Demo.tx.message t'.v 48 =
        parserGetDigest Demo.platform.sha384 Demo.tx.message s'.v 48 := by
  have hf : Demo.tx.Acceptable := ⟨rfl, List.length_replicate, by decide⟩
  have hlen : Demo.tx.message.length < 65536 := by
    rw [ValidationAux.length_message_demo hf rfl]
    decide
  have hmsg : Demo.tx.message.take (Demo.tx.message.length % 65536) = Demo.tx.message ++ [] := by
    rw [Nat.mod_eq_of_lt hlen, List.take_length, List.append_nil]
  obtain ⟨s', hs, -⟩ := parserParse_of_message (Nat.le_refl _) hf hmsg ⟨ParserContext.zero, ParserTx.zero⟩
  obtain ⟨t', ht, -⟩ := parserParse_of_message (Nat.le_refl _) hf hmsg Demo.stale
  obtain ⟨-, hnum, -, hdigest⟩ := (parserParse_forgets Demo.platform Demo.tx.message (some 0) Demo.tx.message.length
    ⟨ParserContext.zero, ParserTx.zero⟩ Demo.stale).2 s' t' hs ht
  exact ⟨s', t', hs, ht, hnum true, hdigest 48⟩

end LedgerArweave
