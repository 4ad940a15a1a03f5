import LedgerArweave.Parser.Accept

/-!
# Parsing again

Where a successful `_read` found each field, and what a later `_read` does while the buffer still starts with the same bytes:
it stores the same lengths and the same pointers again, so that it leaves the object as it is, whether it succeeds or stops
early.
-/

namespace LedgerArweave

open Lib

/-- The number in the two bytes at an offset of the region. -/
def numberAt (mem : Mem) (k : Nat) : Nat := ofBe16 (byteAt mem (some 0) k) (byteAt mem (some 0) (k + 1))

/-- The object holds what is laid out from offset `k` up to offset `k'`: a number, or an element with its length in front. -/
def ParserTx.HasAt (mem : Mem) (v : ParserTx) : U16Loc → (k k' : Nat) → Prop
  | .len l, k, k' => v.element l = ⟨numberAt mem k, some (k + 2)⟩ ∧ k' = k + 2 + numberAt mem k
  | .tagsCount, k, k' => v.tagsCount = numberAt mem k ∧ k' = k + 2

/-- The object holds what is laid out in a row from offset `k` up to offset `k'`. -/
def ParserTx.Laid (mem : Mem) (v : ParserTx) : List U16Loc → (k k' : Nat) → Prop
  | [], k, k' => k' = k
  | l :: ls, k, k'' => ∃ k', v.HasAt mem l k k' ∧ v.Laid mem ls k' k''

/-- What the loop over `n` tags from tag `i` on reads. -/
def tagLocs : (n i : Nat) → List U16Loc
  | 0, _ => []
  | n + 1, i => .len (.tagKey i) :: .len (.tagValue i) :: tagLocs n (i + 1)

/-- What `_read` reads before the tags, in order. -/
def frontOrder : List U16Loc :=
  [.len .format, .len .owner, .len .target, .len .quantity, .len .reward, .len .lastTx, .tagsCount]

/-- What `_read` reads, in order, for `n` tags. -/
def readOrder (n : Nat) : List U16Loc := frontOrder ++ (tagLocs n 0 ++ [.len .dataSize, .len .dataRoot])

section

variable {mem mem' : Mem} {v : ParserTx}

/-- A number, or the length of an element, takes two bytes. -/
theorem ParserTx.HasAt.le {l : U16Loc} {k k' : Nat} (h : v.HasAt mem l k k') : k + 2 ≤ k' := by
  cases l with
  | len l =>
    rw [h.2]
    omega
  | tagsCount => exact Nat.le_of_eq h.2.symm

/-- What is laid out in a row ends behind its start. -/
theorem ParserTx.Laid.le {ls : List U16Loc} {k k' : Nat} (h : v.Laid mem ls k k') : k ≤ k' := by
  induction ls generalizing k with
  | nil => exact Nat.le_of_eq (Eq.symm h)
  | cons l ls ih =>
    obtain ⟨k₁, h1, h2⟩ := h
    have := h1.le
    have := ih h2
    omega

/-- Two rows, one behind the other, are a row. -/
theorem ParserTx.laid_append {ls ls' : List U16Loc} {k k'' : Nat} :
    v.Laid mem (ls ++ ls') k k'' ↔ ∃ k', v.Laid mem ls k k' ∧ v.Laid mem ls' k' k'' := by
  induction ls generalizing k with
  | nil =>
    constructor
    · exact fun h => ⟨k, rfl, h⟩
    · rintro ⟨k', rfl, h⟩
      exact h
  | cons l ls ih =>
    constructor
    · rintro ⟨k₁, h1, h2⟩
      obtain ⟨k', h3, h4⟩ := ih.1 h2
      exact ⟨k', ⟨k₁, h1, h3⟩, h4⟩
    · rintro ⟨k', ⟨k₁, h1, h3⟩, h4⟩
      exact ⟨k₁, h1, ih.2 ⟨k', h3, h4⟩⟩

/-- Regions that start with the same bytes have the same numbers there. -/
theorem numberAt_of_take {n k : Nat} (h : mem'.take n = mem.take n) (hk : k + 2 ≤ n) : numberAt mem' k = numberAt mem k := by
  have byte : ∀ i, i < n → byteAt mem' (some 0) i = byteAt mem (some 0) i := by
    intro i hi
    have := congrArg (fun l : List UInt8 => l[i]?) h
    simp only [List.getElem?_take, if_pos hi] at this
    simp only [byteAt, Option.getD_some, Nat.zero_add, List.getD_eq_getElem?_getD, this]
  rw [numberAt, numberAt, byte k (by omega), byte (k + 1) (by omega)]

/-- What an object holds depends on the bytes up to there only. -/
theorem ParserTx.Laid.of_take {ls : List U16Loc} {n k k' : Nat} (h : v.Laid mem ls k k') (hk : k' ≤ n)
    (htake : mem'.take n = mem.take n) : v.Laid mem' ls k k' := by
  induction ls generalizing k with
  | nil => exact h
  | cons l ls ih =>
    obtain ⟨k₁, h1, h2⟩ := h
    have hle := h1.le
    have hle' := h2.le
    have hnum := numberAt_of_take htake (k := k) (by omega)
    refine ⟨k₁, ?_, ih h2⟩
    cases l with
    | len l => exact ⟨by rw [hnum]; exact h1.1, by rw [hnum]; exact h1.2⟩
    | tagsCount => exact ⟨by rw [hnum]; exact h1.1, h1.2⟩

/-- Two objects that hold what is laid out from the same offset hold the same. -/
theorem ParserTx.Laid.unique {v' : ParserTx} {ls : List U16Loc} {k k₁ k₂ : Nat} (h : v.Laid mem ls k k₁)
    (h' : v'.Laid mem ls k k₂) : k₂ = k₁ ∧ (∀ l, .len l ∈ ls → v'.element l = v.element l) ∧
      (.tagsCount ∈ ls → v'.tagsCount = v.tagsCount) := by
  induction ls generalizing k with
  | nil => exact ⟨Eq.trans h' (Eq.symm h), nofun, nofun⟩
  | cons a ls ih =>
    obtain ⟨m, h1, h2⟩ := h
    obtain ⟨m', h1', h2'⟩ := h'
    cases a with
    | len a =>
      obtain rfl : m' = m := h1'.2.trans h1.2.symm
      obtain ⟨hk, hel, hcount⟩ := ih h2 h2'
      refine ⟨hk, ?_, fun hc => hcount ((List.mem_cons.1 hc).resolve_left nofun)⟩
      intro l hl
      rcases List.mem_cons.1 hl with heq | hl
      · obtain rfl := U16Loc.len.inj heq
        exact h1'.1.trans h1.1.symm
      · exact hel l hl
    | tagsCount =>
      obtain rfl : m' = m := h1'.2.trans h1.2.symm
      obtain ⟨hk, hel, -⟩ := ih h2 h2'
      exact ⟨hk, fun l hl => hel l ((List.mem_cons.1 hl).resolve_left nofun), fun _ => h1'.1.trans h1.1.symm⟩

/-- Objects that agree on what is read hold the same. -/
theorem ParserTx.Laid.congr {v' : ParserTx} {ls : List U16Loc} {k k' : Nat} (h : v.Laid mem ls k k')
    (hel : ∀ l, .len l ∈ ls → v'.element l = v.element l) (hcount : .tagsCount ∈ ls → v'.tagsCount = v.tagsCount) :
    v'.Laid mem ls k k' := by
  induction ls generalizing k with
  | nil => exact h
  | cons l ls ih =>
    obtain ⟨k₁, h1, h2⟩ := h
    refine ⟨k₁, ?_, ih h2 (fun l hl => hel l (List.mem_cons_of_mem _ hl)) fun hc => hcount (List.mem_cons_of_mem _ hc)⟩
    cases l with
    | len l => exact ⟨(hel l (List.mem_cons_self ..)).trans h1.1, h1.2⟩
    | tagsCount => exact ⟨(hcount (List.mem_cons_self ..)).trans h1.1, h1.2⟩

end

/-! ## The first time -/

section

variable (mem : Mem)

/-- `_read` has read what `ls` lists, and the object holds it; the tag count is `n`. -/
structure ReadSoFar (ls : List U16Loc) (n : Nat) (s : ParseState) : Prop where
  buffer : s.c.buffer = some 0
  small : s.c.bufferLen < 65536
  laid : s.v.Laid mem ls 0 s.c.offset
  count : s.v.tagsCount = n

variable {mem} {ls : List U16Loc} {n : Nat}

/-- The next number for a reader is the one at its offset. -/
theorem next16_eq_numberAt {c : ParserContext} (h : c.buffer = some 0) : next16 mem c = numberAt mem c.offset := by
  rw [next16, h, numberAt]

/-- An element is added to what was read. -/
theorem readElement_soFar {l : ElementLoc} (hl : l.InBounds) (hnot : .len l ∉ ls) :
    Triple (ReadSoFar mem ls n) (parserReadElement mem l) (fun _ => ReadSoFar mem (ls ++ [.len l]) n) fun _ _ => True := by
  intro s hs
  refine ⟨?_, fun _ _ _ => trivial⟩
  intro _ s' h
  rw [run_parserReadElement mem hl hs.small, next16_eq_numberAt hs.buffer] at h
  split at h
  · split at h
    · cases h
      refine ⟨hs.buffer, hs.small, ParserTx.laid_append.2 ⟨s.c.offset, ?_, s.c.offset + 2 + numberAt mem s.c.offset, ?_, rfl⟩, ?_⟩
      · refine hs.laid.congr (fun l' hl' => s.v.element_setElement_ne ?_ _) ?_
        · intro heq
          rw [heq] at hnot
          exact hnot hl'
        · intro _
          exact s.v.tagsCount_setElement _ _
      · refine ⟨?_, rfl⟩
        simp only [ParseState.took, ParserTx.element_setElement_self _ hl, hs.buffer, Option.getD_some, Nat.zero_add]
      · rw [← hs.count]
        exact s.v.tagsCount_setElement _ _
    · cases h
  · cases h

/-- The tag count is added to what was read. -/
theorem readTagsCount_soFar (hnot : .tagsCount ∉ ls) :
    Triple (ReadSoFar mem ls n) (parserReadU16 mem .tagsCount)
      (fun _ s => ReadSoFar mem (ls ++ [.tagsCount]) s.v.tagsCount s) fun _ _ => True := by
  intro s hs
  refine ⟨?_, fun _ _ _ => trivial⟩
  intro _ s' h
  rw [run_parserReadU16 mem _ hs.small, next16_eq_numberAt hs.buffer] at h
  split at h
  · cases h
    refine ⟨hs.buffer, hs.small, ParserTx.laid_append.2 ⟨s.c.offset, ?_, s.c.offset + 2, ⟨rfl, rfl⟩, rfl⟩, rfl⟩
    refine hs.laid.congr ?_ fun hc => absurd hc hnot
    intro l _
    cases l <;> rfl
  · cases h

/-- The loop adds the tags to what was read, when none of them was read before. -/
theorem readTags_soFar (k i : Nat) (hi : i + k ≤ 16) (hnot : ∀ j, i ≤ j → .len (.tagKey j) ∉ ls ∧ .len (.tagValue j) ∉ ls) :
    Triple (ReadSoFar mem ls n) (readTags mem k i) (fun _ => ReadSoFar mem (ls ++ tagLocs k i) n) fun _ _ => True := by
  induction k generalizing i ls with
  | zero =>
    rw [tagLocs, List.append_nil]
    exact .pure fun _ h => h
  | succ k ih =>
    have hkey : Triple (ReadSoFar mem ls n) (parserReadElement mem (.tagKey i))
        (fun _ => ReadSoFar mem (ls ++ [.len (.tagKey i)]) n) fun _ _ => True :=
      readElement_soFar (show i < 16 by omega) (hnot i (Nat.le_refl i)).1
    have hvalue : Triple (ReadSoFar mem (ls ++ [.len (.tagKey i)]) n) (parserReadElement mem (.tagValue i))
        (fun _ => ReadSoFar mem (ls ++ [.len (.tagKey i)] ++ [.len (.tagValue i)]) n) fun _ _ => True := by
      refine readElement_soFar (show i < 16 by omega) ?_
      intro h
      rcases List.mem_append.1 h with h | h
      · exact (hnot i (Nat.le_refl i)).2 h
      · simp at h
    have hrest : Triple (ReadSoFar mem (ls ++ [.len (.tagKey i)] ++ [.len (.tagValue i)]) n) (readTags mem k (i + 1))
        (fun _ => ReadSoFar mem (ls ++ [.len (.tagKey i)] ++ [.len (.tagValue i)] ++ tagLocs k (i + 1)) n)
        fun _ _ => True := by
      refine ih (i + 1) (by omega) ?_
      intro j hj
      have := hnot j (by omega)
      simp only [List.mem_append, List.mem_singleton, U16Loc.len.injEq, ElementLoc.tagKey.injEq, ElementLoc.tagValue.injEq,
        reduceCtorEq, or_false, not_or]
      exact ⟨⟨this.1, by omega⟩, this.2, by omega⟩
    rw [show ls ++ tagLocs (k + 1) i = ls ++ [.len (.tagKey i)] ++ [.len (.tagValue i)] ++ tagLocs k (i + 1) by simp [tagLocs]]
    exact .bind (.bind hkey fun _ => hvalue) fun _ => hrest

/-- The loop reads tags only. -/
theorem not_mem_tagLocs {l : ElementLoc} (hl : ∀ j, l ≠ .tagKey j ∧ l ≠ .tagValue j) (k i : Nat) : .len l ∉ tagLocs k i := by
  induction k generalizing i with
  | zero => exact List.not_mem_nil
  | succ k ih =>
    simp only [tagLocs, List.mem_cons, U16Loc.len.injEq, not_or]
    exact ⟨(hl i).1, (hl i).2, ih (i + 1)⟩

/-- The tags and what follows them are added to what was read before them. -/
theorem readTail_soFar (hn : n ≤ 16) :
    Triple (ReadSoFar mem frontOrder n)
      (readTags mem n 0 >>= fun _ => parserReadElement mem .dataSize >>= fun _ => parserReadElement mem .dataRoot)
      (fun _ => ReadSoFar mem (readOrder n) n) fun _ _ => True := by
  have hnot : ∀ {l : ElementLoc}, (∀ j, l ≠ .tagKey j ∧ l ≠ .tagValue j) → .len l ∉ frontOrder →
      .len l ∉ frontOrder ++ tagLocs n 0 := fun hl h => List.not_mem_append h (not_mem_tagLocs hl n 0)
  have htags : Triple (ReadSoFar mem frontOrder n) (readTags mem n 0) (fun _ => ReadSoFar mem (frontOrder ++ tagLocs n 0) n)
      fun _ _ => True := readTags_soFar n 0 (by omega) fun j _ => by simp [frontOrder]
  have hsize : Triple (ReadSoFar mem (frontOrder ++ tagLocs n 0) n) (parserReadElement mem .dataSize)
      (fun _ => ReadSoFar mem (frontOrder ++ tagLocs n 0 ++ [.len .dataSize]) n) fun _ _ => True :=
    readElement_soFar trivial (hnot (by simp) (by simp [frontOrder]))
  have hroot : Triple (ReadSoFar mem (frontOrder ++ tagLocs n 0 ++ [.len .dataSize]) n) (parserReadElement mem .dataRoot)
      (fun _ => ReadSoFar mem (frontOrder ++ tagLocs n 0 ++ [.len .dataSize] ++ [.len .dataRoot]) n) fun _ _ => True :=
    readElement_soFar trivial (List.not_mem_append (hnot (by simp) (by simp [frontOrder])) (by simp))
  rw [show readOrder n = frontOrder ++ tagLocs n 0 ++ [.len .dataSize] ++ [.len .dataRoot] by simp [readOrder]]
  exact .bind htags fun _ => .bind hsize fun _ => hroot

/-- After a successful `_read` from the start of the region, the object holds what the region starts with. -/
theorem read_laid :
    Triple (ReadSoFar mem [] n) (read mem) (fun _ s => ∃ n, ReadSoFar mem (readOrder n) n s) fun _ _ => True := by
  have next : ∀ {ls n} {I : ParseState → Prop}, (∀ s, I s → ReadSoFar mem ls n s) → ∀ (l : ElementLoc), l.InBounds →
      .len l ∉ ls → Triple I (parserReadElement mem l) (fun _ => ReadSoFar mem (ls ++ [.len l]) n) fun _ _ => True :=
    fun hI l hl hnot => (readElement_soFar hl hnot).conseq hI (fun _ _ h => h) fun _ _ h => h
  refine .bind (readElement_soFar trivial (by simp)) fun _ => .bind (triple_rejectUnless fun _ _ => trivial) fun _ =>
    .bind (next (fun _ h => h.1) .owner trivial (by simp)) fun _ => .bind (triple_rejectUnless fun _ _ => trivial) fun _ =>
    .bind (next (fun _ h => h.1) .target trivial (by simp)) fun _ =>
    .bind (readElement_soFar trivial (by simp)) fun _ => .bind (readElement_soFar trivial (by simp)) fun _ =>
    .bind (readElement_soFar trivial (by simp)) fun _ => .bind (readTagsCount_soFar (by simp)) fun _ =>
    .bind (triple_rejectUnless fun _ _ => trivial) ?_
  intro _ s hs
  obtain ⟨hs, hmax⟩ := hs
  rw [run_bind_of_ok (run_get s)]
  obtain ⟨hok, herr⟩ := readTail_soFar (of_decide_eq_true hmax) s hs
  exact ⟨fun u s' h => ⟨_, hok u s' h⟩, herr⟩

end

/-! ## Every later time -/

section

variable {mem : Mem} {v : ParserTx}

/-- A reader at offset `k` of the region works on the object `v`. -/
structure ReadsAt (v : ParserTx) (k : Nat) (s : ParseState) : Prop where
  buffer : s.c.buffer = some 0
  small : s.c.bufferLen < 65536
  offset : s.c.offset = k
  same : s.v = v

/-- Reading the element that the object holds already leaves the object as it is, also when the buffer ends too early. -/
theorem readElement_again (l : ElementLoc) (hl : l.InBounds) {k k' : Nat} (h : v.HasAt mem (.len l) k k') :
    Triple (ReadsAt v k) (parserReadElement mem l) (fun _ => ReadsAt v k') fun _ s => s.v = v := by
  intro s hs
  obtain ⟨hel, rfl⟩ := h
  have hrun := run_parserReadElement mem hl hs.small
  rw [next16_eq_numberAt hs.buffer, hs.offset] at hrun
  have hlen : s.v.setElement l ⟨numberAt mem k, some (k + 2)⟩ = v := by rw [← hel, hs.same, v.setElement_element]
  have htook : ReadsAt v (k + 2 + numberAt mem k) (s.took l (numberAt mem k)) := by
    refine ⟨hs.buffer, hs.small, ?_, ?_⟩
    · simp only [ParseState.took, hs.offset]
    · simp only [ParseState.took, hs.buffer, Option.getD_some, Nat.zero_add, hs.offset, hlen]
  have htookLen : (s.tookLen l (numberAt mem k)).v = v := by
    have hself : ({ v.element l with len := numberAt mem k } : ParserElement) = v.element l := by rw [hel]
    simp only [ParseState.tookLen, ParserTx.setU16, hs.same, hself, v.setElement_element]
  by_cases hnum : k + 2 ≤ s.c.bufferLen
  · rw [if_pos hnum] at hrun
    by_cases hfits : k + 2 + numberAt mem k ≤ s.c.bufferLen
    · exact Triple.at_ok (hrun.trans (if_pos hfits)) htook
    · exact Triple.at_error (hrun.trans (if_neg hfits)) htookLen
  · exact Triple.at_error (hrun.trans (if_neg hnum)) hs.same

/-- The same for the number of tags. -/
theorem readTagsCount_again {k k' : Nat} (h : v.HasAt mem .tagsCount k k') :
    Triple (ReadsAt v k) (parserReadU16 mem .tagsCount) (fun _ => ReadsAt v k') fun _ s => s.v = v := by
  intro s hs
  obtain ⟨hcount, rfl⟩ := h
  have hrun := run_parserReadU16 mem .tagsCount hs.small
  rw [next16_eq_numberAt hs.buffer, hs.offset] at hrun
  have hset : s.v.setU16 .tagsCount (numberAt mem k) = v := by
    rw [hs.same, ← hcount]
    rfl
  by_cases hnum : k + 2 ≤ s.c.bufferLen
  · exact Triple.at_ok (hrun.trans (if_pos hnum)) ⟨hs.buffer, hs.small, by simp only [ParseState.advance, hs.offset], hset⟩
  · exact Triple.at_error (hrun.trans (if_neg hnum)) hs.same

/-- A check does not move the reader. -/
theorem rejectUnless_again (ok : ParserTx → Bool) (e : ParserError) (k : Nat) :
    Triple (ReadsAt v k) (rejectUnless ok e) (fun _ => ReadsAt v k) fun _ s => s.v = v := by
  exact (triple_rejectUnless fun _ hs => hs.same).conseq (fun _ h => h) (fun _ _ h => h.1) fun _ _ h => h

/-- The loop over the tags finds every tag as it is, by induction on how many are left. -/
theorem readTags_again (n i : Nat) (hi : i + n ≤ 16) {k k' : Nat} (h : v.Laid mem (tagLocs n i) k k') :
    Triple (ReadsAt v k) (readTags mem n i) (fun _ => ReadsAt v k') fun _ s => s.v = v := by
  induction n generalizing i k with
  | zero =>
    obtain rfl : k' = k := h
    exact .pure fun _ hs => hs
  | succ n ih =>
    obtain ⟨k₁, hkey, k₂, hvalue, hrest⟩ := h
    have hbound : i < 16 := by omega
    exact .bind (.bind (readElement_again (.tagKey i) hbound hkey) fun _ =>
      readElement_again (.tagValue i) hbound hvalue) fun _ => ih (i + 1) (by omega) hrest

/-- `_read` over a region that starts with what the object holds leaves the object as it is, whether it succeeds or not. -/
theorem read_again {k : Nat} (h : v.Laid mem (readOrder v.tagsCount) 0 k) :
    Triple (ReadsAt v 0) (read mem) (fun _ s => s.v = v) fun _ s => s.v = v := by
  obtain ⟨_, hfront, h⟩ := ParserTx.laid_append.1 h
  obtain ⟨_, h8, _, h9, _, h10, -⟩ := ParserTx.laid_append.1 h
  obtain ⟨_, h1, _, h2, _, h3, _, h4, _, h5, _, h6, _, h7, rfl⟩ := hfront
  refine .bind (readElement_again .format trivial h1) fun _ => .bind (rejectUnless_again _ _ _) fun _ =>
    .bind (readElement_again .owner trivial h2) fun _ => .bind (rejectUnless_again _ _ _) fun _ =>
    .bind (readElement_again .target trivial h3) fun _ => .bind (readElement_again .quantity trivial h4) fun _ =>
    .bind (readElement_again .reward trivial h5) fun _ => .bind (readElement_again .lastTx trivial h6) fun _ =>
    .bind (readTagsCount_again h7) ?_
  -- the number of tags is checked before they are read
  intro _ s hs
  by_cases hmax : v.tagsCount ≤ maxNumberTags
  · rw [run_bind_of_ok ((run_rejectUnless _ _ s).trans (if_pos (by rw [hs.same]; exact decide_eq_true hmax))),
      run_bind_of_ok (run_get s), hs.same]
    have hlast : Triple (ReadsAt v _) (parserReadElement mem .dataRoot) (fun _ s => s.v = v) fun _ s => s.v = v :=
      (readElement_again .dataRoot trivial h10).conseq (fun _ h => h) (fun _ _ h => h.same) fun _ _ h => h
    exact (Triple.bind (readTags_again _ 0 (by rw [Nat.zero_add]; exact hmax) h8) fun _ =>
      .bind (readElement_again .dataSize trivial h9) fun _ => hlast) s hs
  · have hrun := (run_rejectUnless (fun v => v.tagsCount ≤ maxNumberTags) .valueOutOfRange s).trans
      (if_neg (by rw [hs.same, decide_eq_true_eq]; exact hmax))
    exact Triple.at_error (run_bind_of_error hrun _) hs.same

end

/-! ## `parser_parse` -/

/-- Elements that show bytes of a region show them in every region that starts with the same bytes. -/
theorem Shows.of_take {mem mem' : Mem} {n : Nat} {e : ParserElement} {f : List UInt8} (h : Shows mem n e f)
    (htake : mem'.take n = mem.take n) : Shows mem' n e f := by
  obtain ⟨p, hp, hle, hs⟩ := h.view
  exact ⟨h.len, p, hp, hle, (slice_congr htake hle).trans hs⟩

/-- What an object shows depends on the bytes it was parsed from alone. -/
theorem ParserTx.Holds.of_take {mem mem' : Mem} {n : Nat} {v : ParserTx} {f : TxFields} (h : v.Holds mem n f)
    (htake : mem'.take n = mem.take n) : v.Holds mem' n f :=
  ⟨h.format.of_take htake, h.owner.of_take htake, h.target.of_take htake, h.quantity.of_take htake, h.reward.of_take htake,
    h.lastTx.of_take htake, h.count, fun i t ht => ⟨(h.tags i t ht).1.of_take htake, (h.tags i t ht).2.of_take htake⟩,
    h.dataSize.of_take htake, h.dataRoot.of_take htake⟩

/-- The object was parsed from the first `n` bytes of the region. -/
structure ParserTx.ParsedFrom (mem : Mem) (n : Nat) (v : ParserTx) : Prop where
  small : n < 65536
  shows : ∃ f : TxFields, f.Acceptable ∧ v.Holds mem n f
  laid : ∃ k, k ≤ n ∧ v.Laid mem (readOrder v.tagsCount) 0 k

/-- A parse leaves an object parsed from its bytes. -/
theorem parserParse_parsedFrom {mem : Mem} {n : Nat} (hn : n ≤ mem.length) {s s' : ParseState} {u : Unit}
    (h : (parserParse mem (some 0) n).run s = .ok u s') : s'.v.ParsedFrom mem (n % 65536) := by
  obtain ⟨f, hf, hholds, hvalid, hlen, -⟩ := parserParse_ok hn h
  refine ⟨Nat.mod_lt _ (by decide), ⟨f, hf, hholds⟩, s'.c.offset, hlen ▸ hvalid.inside, ?_⟩
  rw [run_parserParse] at h
  split at h
  · cases h
  · split at h
    · cases h
    · have hstart : ReadSoFar mem [] s.v.tagsCount { s with c := ParserContext.initial n } :=
        ⟨rfl, Nat.mod_lt _ (by decide), rfl, rfl⟩
      obtain ⟨k, hread⟩ := read_laid.ok hstart h
      rw [hread.count]
      exact hread.laid

/-- What an object was parsed from it still shows in a region that starts with the same bytes. -/
theorem ParserTx.ParsedFrom.of_take {mem mem' : Mem} {n : Nat} {v : ParserTx} (h : v.ParsedFrom mem n)
    (htake : mem'.take n = mem.take n) : v.ParsedFrom mem' n ∧ v.fields mem' = v.fields mem := by
  obtain ⟨f, hf, hholds⟩ := h.shows
  obtain ⟨k, hk, hlaid⟩ := h.laid
  have hholds' := hholds.of_take htake
  exact ⟨⟨h.small, ⟨f, hf, hholds'⟩, k, hk, hlaid.of_take hk htake⟩, by rw [hholds'.fields_eq, hholds.fields_eq]⟩

/-- The loop reads every tag it is told of. -/
theorem mem_tagLocs {n i j : Nat} (h1 : i ≤ j) (h2 : j < i + n) :
    .len (.tagKey j) ∈ tagLocs n i ∧ .len (.tagValue j) ∈ tagLocs n i := by
  induction n generalizing i with
  | zero => omega
  | succ n ih =>
    rcases Nat.eq_or_lt_of_le h1 with rfl | hlt
    · simp [tagLocs]
    · obtain ⟨hk, hw⟩ := ih hlt (by omega)
      exact ⟨List.mem_cons_of_mem _ (List.mem_cons_of_mem _ hk), List.mem_cons_of_mem _ (List.mem_cons_of_mem _ hw)⟩

/-- The elements of the object that belong to the transaction: not the tags behind the tag count. -/
def ParserTx.InUse (v : ParserTx) : ElementLoc → Prop
  | .tagKey i => i < v.tagsCount
  | .tagValue i => i < v.tagsCount
  | _ => True

/-- `_read` reads every element in use. -/
theorem ParserTx.InUse.mem_readOrder {v : ParserTx} {l : ElementLoc} (h : v.InUse l) : .len l ∈ readOrder v.tagsCount := by
  cases l with
  | tagKey i =>
    exact List.mem_append_right _ (List.mem_append_left _ (mem_tagLocs (Nat.zero_le i) (by rw [Nat.zero_add]; exact h)).1)
  | tagValue i =>
    exact List.mem_append_right _ (List.mem_append_left _ (mem_tagLocs (Nat.zero_le i) (by rw [Nat.zero_add]; exact h)).2)
  | dataSize => exact List.mem_append_right _ (List.mem_append_right _ (List.mem_cons_self ..))
  | dataRoot => exact List.mem_append_right _ (List.mem_append_right _ (List.mem_cons_of_mem _ (List.mem_cons_self ..)))
  | _ => exact List.mem_append_left _ (by simp [frontOrder])

/-- Two objects have the same transaction: they agree on the tag count and on every element in use. -/
structure ParserTx.Agrees (v v' : ParserTx) : Prop where
  count : v'.tagsCount = v.tagsCount
  elements : ∀ l, v.InUse l → v'.element l = v.element l

/-- Objects that agree on what is in use agree on the tags. -/
theorem ParserTx.Agrees.tag {v v' : ParserTx} (h : v.Agrees v') {i : Nat} (hi : i < v.tagsCount) : v'.tag i = v.tag i :=
  congrArg₂ ParserTag.mk (h.elements (.tagKey i) hi) (h.elements (.tagValue i) hi)

/-- Parsing a region again that starts with what the object was parsed from leaves the object as it is. -/
theorem ParserTx.ParsedFrom.parse_again {mem : Mem} {n m : Nat} {s : ParseState} (h : s.v.ParsedFrom mem n) :
    (∀ u s', (parserParse mem (some 0) m).run s = .ok u s' → s'.v = s.v) ∧
      ∀ e s', (parserParse mem (some 0) m).run s = .error e s' → s'.v = s.v := by
  obtain ⟨k, -, hlaid⟩ := h.laid
  have hrun := run_parserParse mem m s
  split at hrun
  · exact Triple.at_error hrun rfl
  · split at hrun
    · exact Triple.at_error hrun rfl
    · rw [hrun]
      exact read_again hlaid _ ⟨rfl, Nat.mod_lt _ (by decide), rfl, rfl⟩

end LedgerArweave
