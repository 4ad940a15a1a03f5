import LedgerArweave.Parser.Read

/-!
# What `_read` accepts

The layout of a transaction as the interface documents it (`TxFields.message`): the fields in order, each with its length in
front, and the tags behind their number. `read_ok` says that a successful `_read` has consumed such a message and left in the
object views of its fields; `read_of_message` says that `_read` succeeds on every such message.
-/

namespace LedgerArweave

open Lib

/-- The content of a transaction: the bytes of its fields and its tags. -/
@[ext] structure TxFields where
  format : List UInt8
  owner : List UInt8
  target : List UInt8
  quantity : List UInt8
  reward : List UInt8
  lastTx : List UInt8
  tags : List (List UInt8 × List UInt8)
  dataSize : List UInt8
  dataRoot : List UInt8
  deriving DecidableEq, Repr

/-- A tag in the message: its name and its value, each with its length in front. -/
def tagMessage (t : List UInt8 × List UInt8) : List UInt8 := prefixed t.1 ++ prefixed t.2

/-- The message of a transaction, laid out as the interface documents it. -/
def TxFields.message (f : TxFields) : List UInt8 :=
  prefixed f.format ++ (prefixed f.owner ++ (prefixed f.target ++ (prefixed f.quantity ++ (prefixed f.reward ++
    (prefixed f.lastTx ++ (be16 f.tags.length ++ (f.tags.flatMap tagMessage ++
      (prefixed f.dataSize ++ prefixed f.dataRoot))))))))

/-- A list of tags is read back from its message, with the rest. -/
theorem tags_append_inj : ∀ (l m : List (List UInt8 × List UInt8)) (s t : List UInt8), l.length = m.length →
    (l.flatMap tagMessage ++ s).length < 65536 → l.flatMap tagMessage ++ s = m.flatMap tagMessage ++ t →
    l = m ∧ s = t ∧ s.length < 65536 := by
  intro l
  induction l with
  | nil =>
    intro m s t hm hlen h
    obtain rfl := List.length_eq_zero_iff.1 hm.symm
    exact ⟨rfl, h, hlen⟩
  | cons x l ih =>
    intro m s t hm hlen h
    cases m with
    | nil => cases hm
    | cons y m =>
      simp only [List.flatMap_cons, tagMessage, List.append_assoc] at h hlen
      obtain ⟨hkey, h, hlen⟩ := prefixed_append_inj hlen h
      obtain ⟨hvalue, h, hlen⟩ := prefixed_append_inj hlen h
      obtain ⟨hrest, h, hlen⟩ := ih m s t (Nat.succ.inj hm) hlen h
      exact ⟨by rw [Prod.ext hkey hvalue, hrest], h, hlen⟩

/-- The tags take at least four bytes each. -/
theorem length_flatMap_tagMessage (l : List (List UInt8 × List UInt8)) : 4 * l.length ≤ (l.flatMap tagMessage).length := by
  induction l with
  | nil => exact Nat.zero_le _
  | cons x l ih =>
    simp only [List.flatMap_cons, List.length_append, List.length_cons, tagMessage, length_prefixed]
    omega

/-- No two transactions have messages of which one opens the other, among the messages short enough for all their lengths and
their number of tags to be 16-bit numbers. -/
theorem message_append_inj {f g : TxFields} {s t : List UInt8} (hlen : (f.message ++ s).length < 65536)
    (h : f.message ++ s = g.message ++ t) : f = g ∧ s = t := by
  have hlen' := congrArg List.length h
  have hcount := length_flatMap_tagMessage f.tags
  have hcount' := length_flatMap_tagMessage g.tags
  have hf : f.tags.length < 65536 := by
    simp only [TxFields.message, List.length_append] at hlen
    omega
  have hg : g.tags.length < 65536 := by
    rw [hlen'] at hlen
    simp only [TxFields.message, List.length_append] at hlen
    omega
  simp only [TxFields.message, List.append_assoc] at h hlen
  obtain ⟨h1, h, hlen⟩ := prefixed_append_inj hlen h
  obtain ⟨h2, h, hlen⟩ := prefixed_append_inj hlen h
  obtain ⟨h3, h, hlen⟩ := prefixed_append_inj hlen h
  obtain ⟨h4, h, hlen⟩ := prefixed_append_inj hlen h
  obtain ⟨h5, h, hlen⟩ := prefixed_append_inj hlen h
  obtain ⟨h6, h, hlen⟩ := prefixed_append_inj hlen h
  obtain ⟨hn, h⟩ := be16_append_inj hf hg h
  rw [List.length_append, length_be16] at hlen
  obtain ⟨h7, h, hlen⟩ := tags_append_inj f.tags g.tags _ _ hn (by omega) h
  obtain ⟨h8, h, hlen⟩ := prefixed_append_inj hlen h
  obtain ⟨h9, h, -⟩ := prefixed_append_inj hlen h
  exact ⟨TxFields.ext h1 h2 h3 h4 h5 h6 h7 h8 h9, h⟩

/-- The transactions the parser is meant for: format 2, an owner of 512 bytes and at most 16 tags. -/
structure TxFields.Acceptable (f : TxFields) : Prop where
  format : f.format = [50]
  owner : f.owner.length = 512
  tags : f.tags.length ≤ 16

/-! ## Contexts -/

/-- A context over a buffer that starts the region: its offset is inside the buffer. -/
structure ParserContext.Valid (mem : Mem) (c : ParserContext) : Prop where
  buffer : c.buffer = some 0
  fits : c.bufferLen ≤ mem.length
  small : c.bufferLen < 65536
  inside : c.offset ≤ c.bufferLen

/-- The bytes of the buffer not consumed yet. -/
def ParserContext.unread (c : ParserContext) (mem : Mem) : List UInt8 := (mem.take c.bufferLen).drop c.offset

theorem ParserContext.Valid.length_unread {mem : Mem} {c : ParserContext} (h : c.Valid mem) :
    (c.unread mem).length = c.bufferLen - c.offset := by
  have := h.fits
  simp only [unread, List.length_drop, List.length_take]
  omega

/-- The next number of a valid context is the number its next two bytes stand for. -/
theorem ParserContext.Valid.next16_eq {mem : Mem} {c : ParserContext} (h : c.Valid mem) {hi lo : UInt8}
    {t : List UInt8} (hu : c.unread mem = hi :: lo :: t) : next16 mem c = ofBe16 hi lo := by
  have hlen := h.length_unread
  rw [hu] at hlen
  simp only [List.length_cons] at hlen
  have byte : ∀ k b, (c.unread mem)[k]? = some b → byteAt mem c.buffer (c.offset + k) = b := by
    intro k b hb
    rw [unread, List.getElem?_drop, List.getElem?_take] at hb
    split at hb
    · rw [byteAt, h.buffer, Option.getD_some, Nat.zero_add, List.getD_eq_getElem?_getD, hb, Option.getD_some]
    · cases hb
  unfold next16
  exact congrArg₂ ofBe16 (byte 0 hi (by rw [hu]; rfl)) (byte 1 lo (by rw [hu]; rfl))

/-- A valid context with two more bytes has them in front of what is unread. -/
theorem ParserContext.Valid.unread_cons {mem : Mem} {c : ParserContext} (h : c.Valid mem)
    (h2 : c.offset + 2 ≤ c.bufferLen) :
    ∃ hi lo, c.unread mem = hi :: lo :: (mem.take c.bufferLen).drop (c.offset + 2) := by
  have hlen := h.length_unread
  match hu : c.unread mem with
  | [] => rw [hu] at hlen; simp only [List.length_nil] at hlen; omega
  | [_] => rw [hu] at hlen; simp only [List.length_cons, List.length_nil] at hlen; omega
  | hi :: lo :: t =>
    refine ⟨hi, lo, ?_⟩
    have ht : t = (c.unread mem).drop 2 := by rw [hu]; rfl
    rw [ht, unread, List.drop_drop]

/-! ## Elements -/

/-- An element that shows the bytes `f`: a view of `f`'s length that lies inside the first `n` bytes of the region. -/
structure Shows (mem : Mem) (n : Nat) (e : ParserElement) (f : List UInt8) : Prop where
  len : e.len = f.length
  view : ∃ p, e.ptr = some p ∧ p + f.length ≤ n ∧ slice mem p f.length = f

theorem Shows.bytes {mem : Mem} {n : Nat} {e : ParserElement} {f : List UInt8} (h : Shows mem n e f) : e.bytes mem = f := by
  obtain ⟨p, hp, -, hs⟩ := h.view
  simp only [ParserElement.bytes, hp, h.len, hs]

/-- What a successful `parser_readElement` does: it consumes a blob and its length, and the element shows the blob. -/
structure Reads (mem : Mem) (s : ParseState) (l : ElementLoc) (f : List UInt8) (s' : ParseState) : Prop where
  shows : Shows mem s.c.bufferLen (s'.v.element l) f
  rest : s.c.unread mem = prefixed f ++ s'.c.unread mem
  valid : s'.c.Valid mem
  bufferLen : s'.c.bufferLen = s.c.bufferLen
  frame : ∀ l', l' ≠ l → s'.v.element l' = s.v.element l'
  count : s'.v.tagsCount = s.v.tagsCount

/-- Reading an element of `f.length` bytes where the message goes on with `f` and its length. -/
theorem reads_took {mem : Mem} {s : ParseState} {l : ElementLoc} (hl : l.InBounds) (hv : s.c.Valid mem)
    {f t : List UInt8} (hu : s.c.unread mem = prefixed f ++ t) :
    Reads mem s l f (s.took l f.length) ∧ (s.took l f.length).c.unread mem = t := by
  obtain ⟨hs, ht, hle⟩ := slice_of_prefixed hu
  have htake : (mem.take s.c.bufferLen).length = s.c.bufferLen := List.length_take_of_le hv.fits
  rw [htake] at hle
  rw [slice_take (by omega)] at hs
  refine ⟨⟨⟨?_, s.c.offset + 2, ?_, hle, hs⟩, ?_, ⟨hv.buffer, hv.fits, hv.small, hle⟩, rfl, ?_, ?_⟩, ht⟩
  · simp only [ParseState.took, ParserTx.element_setElement_self _ hl]
  · simp only [ParseState.took, ParserTx.element_setElement_self _ hl, hv.buffer, Option.getD_some, Nat.zero_add]
  · rw [hu]
    exact congrArg _ ht.symm
  · intro l' hne
    exact s.v.element_setElement_ne (Ne.symm hne) _
  · exact s.v.tagsCount_setElement _ _

/-- A successful read of an element consumes some blob and its length. -/
theorem readElement_ok {mem : Mem} {s s' : ParseState} (l : ElementLoc) (hl : l.InBounds) (hv : s.c.Valid mem)
    {u : Unit} (h : (parserReadElement mem l).run s = .ok u s') : ∃ f, f.length < 65536 ∧ Reads mem s l f s' := by
  rw [run_parserReadElement mem hl hv.small] at h
  split at h
  · rename_i h2
    split at h
    · rename_i hn
      obtain ⟨hi, lo, hu⟩ := hv.unread_cons h2
      have hval := hv.next16_eq hu
      have hlt := ofBe16_lt hi lo
      have hlen : (slice mem (s.c.offset + 2) (next16 mem s.c)).length = next16 mem s.c :=
        length_slice (Nat.le_trans hn hv.fits)
      refine ⟨slice mem (s.c.offset + 2) (next16 mem s.c), by omega, ?_⟩
      have hu' : s.c.unread mem = prefixed (slice mem (s.c.offset + 2) (next16 mem s.c)) ++
          (mem.take s.c.bufferLen).drop (s.c.offset + 2 + next16 mem s.c) := by
        have hcut := List.take_append_drop (next16 mem s.c) ((mem.take s.c.bufferLen).drop (s.c.offset + 2))
        rw [List.drop_drop] at hcut
        rw [prefixed, hlen, hu, ← slice_take hn, slice, List.append_assoc, hcut, hval, be16_ofBe16]
        rfl
      obtain ⟨hr, -⟩ := reads_took hl hv hu'
      rw [hlen] at hr
      cases h
      exact hr
    · cases h
  · cases h

/-- Where the message goes on with a blob and its length, the read of an element succeeds. -/
theorem readElement_of_prefixed {mem : Mem} {s : ParseState} (l : ElementLoc) (hl : l.InBounds) (hv : s.c.Valid mem)
    {f t : List UInt8} (hf : f.length < 65536) (hu : s.c.unread mem = prefixed f ++ t) :
    ∃ s', (parserReadElement mem l).run s = .ok () s' ∧ Reads mem s l f s' ∧ s'.c.unread mem = t := by
  have hval : next16 mem s.c = f.length := by
    rw [hv.next16_eq hu]
    exact ofBe16_be16 hf
  have hlen := hv.length_unread
  have hin := hv.inside
  rw [hu, List.length_append, length_prefixed] at hlen
  obtain ⟨hr, ht⟩ := reads_took hl hv hu
  refine ⟨_, ?_, hr, ht⟩
  rw [run_parserReadElement mem hl hv.small, hval, if_pos (by omega), if_pos (by omega)]

end LedgerArweave
