import LedgerArweave.Parser.Message

/-!
# `_read` and `parser_parse` as a whole

The loop over the tags by induction on their number, then `_read` from end to end, in both directions: what a successful read
has consumed and stored, and on which buffers it succeeds.
-/

namespace LedgerArweave

open Lib

/-! ## The loop over the tags -/

/-- What a successful run of the loop does: it consumes the tags, and entry `i + k` of the array shows tag `k`. -/
structure ReadsTags (mem : Mem) (s : ParseState) (i : Nat) (tags : List (List UInt8 × List UInt8)) (s' : ParseState) :
    Prop where
  shows : ∀ k t, tags[k]? = some t →
    Shows mem s.c.bufferLen (s'.v.tag (i + k)).key t.1 ∧ Shows mem s.c.bufferLen (s'.v.tag (i + k)).value t.2
  rest : s.c.unread mem = tags.flatMap tagMessage ++ s'.c.unread mem
  valid : s'.c.Valid mem
  bufferLen : s'.c.bufferLen = s.c.bufferLen
  frame : ∀ l, (∀ j, i ≤ j → j < i + tags.length → l ≠ .tagKey j ∧ l ≠ .tagValue j) → s'.v.element l = s.v.element l
  count : s'.v.tagsCount = s.v.tagsCount

theorem ReadsTags.nil {mem : Mem} {s : ParseState} (hv : s.c.Valid mem) (i : Nat) : ReadsTags mem s i [] s :=
  ⟨by simp, by simp, hv, rfl, fun _ _ => rfl, rfl⟩

/-- A key, a value and the tags after them are one tag more. -/
theorem ReadsTags.cons {mem : Mem} {s s₁ s₂ s' : ParseState} {i : Nat} {k w : List UInt8}
    {ts : List (List UInt8 × List UInt8)} (hk : Reads mem s (.tagKey i) k s₁) (hw : Reads mem s₁ (.tagValue i) w s₂)
    (ht : ReadsTags mem s₂ (i + 1) ts s') : ReadsTags mem s i ((k, w) :: ts) s' := by
  have hb1 := hk.bufferLen
  have hb2 := hw.bufferLen
  -- the rest of the loop leaves entry i alone
  have hkey : (s'.v.tag i).key = (s₁.v.tag i).key :=
    (ht.frame (.tagKey i) fun j h1 _ => ⟨by simp; omega, by simp⟩).trans (hw.frame (.tagKey i) (by simp))
  have hval : (s'.v.tag i).value = (s₂.v.tag i).value :=
    ht.frame (.tagValue i) fun j h1 _ => ⟨by simp, by simp; omega⟩
  refine ⟨?_, ?_, ht.valid, ht.bufferLen.trans (hb2.trans hb1), ?_, ht.count.trans (hw.count.trans hk.count)⟩
  · intro n t hn
    cases n with
    | zero =>
      simp only [List.getElem?_cons_zero, Option.some.injEq] at hn
      subst hn
      rw [Nat.add_zero, hkey, hval]
      exact ⟨hk.shows, hb1 ▸ hw.shows⟩
    | succ n =>
      have := ht.shows n t hn
      rw [hb2, hb1] at this
      rwa [Nat.add_assoc, Nat.add_comm 1 n] at this
  · rw [hk.rest, hw.rest, ht.rest]
    simp [tagMessage]
  · intro l hl
    have hi := hl i (Nat.le_refl _) (by simp)
    rw [ht.frame l fun j h1 h2 => hl j (by omega) (by simp only [List.length_cons]; omega), hw.frame l hi.2,
      hk.frame l hi.1]

/-- A successful run of the loop consumes as many tags as it was told. -/
theorem readTags_ok {mem : Mem} : ∀ (n i : Nat) (s s' : ParseState) (u : Unit), i + n ≤ 16 → s.c.Valid mem →
    (readTags mem n i).run s = .ok u s' →
    ∃ tags, tags.length = n ∧ (∀ t ∈ tags, t.1.length < 65536 ∧ t.2.length < 65536) ∧ ReadsTags mem s i tags s' := by
  intro n
  induction n with
  | zero =>
    intro i s s' u _ hv h
    cases h
    exact ⟨[], rfl, by simp, ReadsTags.nil hv i⟩
  | succ n ih =>
    intro i s s' u hi hv h
    obtain ⟨_, s₂, h1, h2⟩ := run_bind_eq_ok.1 h
    obtain ⟨_, s₁, hk, hw⟩ := run_bind_eq_ok.1 h1
    obtain ⟨k, hkl, rk⟩ := readElement_ok (.tagKey i) (show i < 16 by omega) hv hk
    obtain ⟨w, hwl, rw'⟩ := readElement_ok (.tagValue i) (show i < 16 by omega) rk.valid hw
    obtain ⟨ts, hlen, hts, rt⟩ := ih (i + 1) s₂ s' u (by omega) rw'.valid h2
    refine ⟨(k, w) :: ts, by simp [hlen], ?_, ReadsTags.cons rk rw' rt⟩
    intro t ht
    rcases List.mem_cons.1 ht with rfl | ht
    · exact ⟨hkl, hwl⟩
    · exact hts t ht

/-- Where the message goes on with tags, the loop over them succeeds. -/
theorem readTags_of_tags {mem : Mem} : ∀ (tags : List (List UInt8 × List UInt8)) (i : Nat) (s : ParseState)
    (t : List UInt8), i + tags.length ≤ 16 → s.c.Valid mem →
    (∀ t ∈ tags, t.1.length < 65536 ∧ t.2.length < 65536) → s.c.unread mem = tags.flatMap tagMessage ++ t →
    ∃ s', (readTags mem tags.length i).run s = .ok () s' ∧ ReadsTags mem s i tags s' ∧ s'.c.unread mem = t := by
  intro tags
  induction tags with
  | nil =>
    intro i s t _ hv _ hu
    exact ⟨s, rfl, ReadsTags.nil hv i, hu⟩
  | cons a ts ih =>
    intro i s t hi hv hts hu
    simp only [List.length_cons] at hi
    obtain ⟨hal, hbl⟩ := hts a (by simp)
    rw [List.flatMap_cons, tagMessage, List.append_assoc, List.append_assoc] at hu
    obtain ⟨s₁, h1, r1, u1⟩ := readElement_of_prefixed (.tagKey i) (show i < 16 by omega) hv hal hu
    obtain ⟨s₂, h2, r2, u2⟩ := readElement_of_prefixed (.tagValue i) (show i < 16 by omega) r1.valid hbl u1
    obtain ⟨s', h3, r3, u3⟩ := ih (i + 1) s₂ t (by omega) r2.valid (fun t ht => hts t (by simp [ht])) u2
    refine ⟨s', ?_, ReadsTags.cons r1 r2 r3, u3⟩
    have htag : (parserReadTag mem i).run s = .ok () s₂ := by
      unfold parserReadTag
      rw [run_bind_of_ok h1, h2]
    rw [List.length_cons, readTags, run_bind_of_ok htag, h3]

/-! ## The whole message -/

/-- The object shows the content `f`: each element shows its field, and the first entries of the array show the tags. -/
structure ParserTx.Holds (mem : Mem) (n : Nat) (v : ParserTx) (f : TxFields) : Prop where
  format : Shows mem n v.format f.format
  owner : Shows mem n v.owner f.owner
  target : Shows mem n v.target f.target
  quantity : Shows mem n v.quantity f.quantity
  reward : Shows mem n v.reward f.reward
  lastTx : Shows mem n v.lastTx f.lastTx
  count : v.tagsCount = f.tags.length
  tags : ∀ i t, f.tags[i]? = some t → Shows mem n (v.tag i).key t.1 ∧ Shows mem n (v.tag i).value t.2
  dataSize : Shows mem n v.dataSize f.dataSize
  dataRoot : Shows mem n v.dataRoot f.dataRoot

/-- The content an object shows. -/
def ParserTx.fields (mem : Mem) (v : ParserTx) : TxFields where
  format := v.format.bytes mem
  owner := v.owner.bytes mem
  target := v.target.bytes mem
  quantity := v.quantity.bytes mem
  reward := v.reward.bytes mem
  lastTx := v.lastTx.bytes mem
  tags := (List.range v.tagsCount).map fun i => ((v.tag i).key.bytes mem, (v.tag i).value.bytes mem)
  dataSize := v.dataSize.bytes mem
  dataRoot := v.dataRoot.bytes mem

theorem ParserTx.Holds.fields_eq {mem : Mem} {n : Nat} {v : ParserTx} {f : TxFields} (h : v.Holds mem n f) :
    v.fields mem = f := by
  have htags : (List.range v.tagsCount).map (fun i => ((v.tag i).key.bytes mem, (v.tag i).value.bytes mem)) = f.tags := by
    apply List.ext_getElem?
    intro i
    rw [List.getElem?_map, h.count]
    by_cases hi : i < f.tags.length
    · obtain ⟨h1, h2⟩ := h.tags i f.tags[i] (List.getElem?_eq_getElem hi)
      rw [List.getElem?_range hi, Option.map_some, h1.bytes, h2.bytes, List.getElem?_eq_getElem hi]
    · rw [List.getElem?_eq_none (by simpa using hi), List.getElem?_eq_none (by omega), Option.map_none]
  simp only [ParserTx.fields, htags, h.format.bytes, h.owner.bytes, h.target.bytes, h.quantity.bytes, h.reward.bytes,
    h.lastTx.bytes, h.dataSize.bytes, h.dataRoot.bytes]

/-- From the reads of the fields in turn, what the object shows at the end and what was consumed. -/
theorem holds_of_reads {mem : Mem} (f : TxFields) {s s₁ s₂ s₃ s₄ s₅ s₆ s₇ s₈ s₉ s' : ParseState}
    (r₁ : Reads mem s .format f.format s₁) (r₂ : Reads mem s₁ .owner f.owner s₂)
    (r₃ : Reads mem s₂ .target f.target s₃) (r₄ : Reads mem s₃ .quantity f.quantity s₄)
    (r₅ : Reads mem s₄ .reward f.reward s₅) (r₆ : Reads mem s₅ .lastTx f.lastTx s₆)
    (hel : ∀ l, s₇.v.element l = s₆.v.element l) (hcount : s₇.v.tagsCount = f.tags.length)
    (hlen : s₇.c.bufferLen = s₆.c.bufferLen) (hrest : s₆.c.unread mem = be16 f.tags.length ++ s₇.c.unread mem)
    (r₈ : ReadsTags mem s₇ 0 f.tags s₈) (r₉ : Reads mem s₈ .dataSize f.dataSize s₉)
    (r₁₀ : Reads mem s₉ .dataRoot f.dataRoot s') :
    s'.v.Holds mem s.c.bufferLen f ∧ s.c.unread mem = f.message ++ s'.c.unread mem := by
  have b₁ := r₁.bufferLen
  have b₂ := r₂.bufferLen
  have b₃ := r₃.bufferLen
  have b₄ := r₄.bufferLen
  have b₅ := r₅.bufferLen
  have b₆ := r₆.bufferLen
  have b₈ := r₈.bufferLen
  have b₉ := r₉.bufferLen
  -- the last reads leave the fields before the tags alone
  have last : ∀ l, l ≠ .dataSize → l ≠ .dataRoot → (∀ j, l ≠ .tagKey j ∧ l ≠ .tagValue j) →
      s'.v.element l = s₆.v.element l := by
    intro l h1 h2 h3
    rw [r₁₀.frame l h2, r₉.frame l h1, r₈.frame l fun j _ _ => h3 j, hel]
  refine ⟨⟨?_, ?_, ?_, ?_, ?_, ?_, ?_, ?_, ?_, ?_⟩, ?_⟩
  · have h := r₁.shows
    rwa [← r₂.frame .format (by simp), ← r₃.frame .format (by simp), ← r₄.frame .format (by simp),
      ← r₅.frame .format (by simp), ← r₆.frame .format (by simp), ← last .format (by simp) (by simp) (by simp)] at h
  · have h := r₂.shows
    rwa [← r₃.frame .owner (by simp), ← r₄.frame .owner (by simp), ← r₅.frame .owner (by simp),
      ← r₆.frame .owner (by simp), ← last .owner (by simp) (by simp) (by simp), b₁] at h
  · have h := r₃.shows
    rwa [← r₄.frame .target (by simp), ← r₅.frame .target (by simp), ← r₆.frame .target (by simp),
      ← last .target (by simp) (by simp) (by simp), b₂, b₁] at h
  · have h := r₄.shows
    rwa [← r₅.frame .quantity (by simp), ← r₆.frame .quantity (by simp), ← last .quantity (by simp) (by simp) (by simp),
      b₃, b₂, b₁] at h
  · have h := r₅.shows
    rwa [← r₆.frame .reward (by simp), ← last .reward (by simp) (by simp) (by simp), b₄, b₃, b₂, b₁] at h
  · have h := r₆.shows
    rwa [← last .lastTx (by simp) (by simp) (by simp), b₅, b₄, b₃, b₂, b₁] at h
  · rw [r₁₀.count, r₉.count, r₈.count, hcount]
  · intro i t ht
    have h := r₈.shows i t ht
    have hk : (s'.v.tag i).key = (s₈.v.tag i).key := (r₁₀.frame (.tagKey i) (by simp)).trans (r₉.frame _ (by simp))
    have hw : (s'.v.tag i).value = (s₈.v.tag i).value :=
      (r₁₀.frame (.tagValue i) (by simp)).trans (r₉.frame _ (by simp))
    rw [hk, hw]
    rwa [Nat.zero_add, hlen, b₆, b₅, b₄, b₃, b₂, b₁] at h
  · have h := r₉.shows
    rwa [← r₁₀.frame .dataSize (by simp), b₈, hlen, b₆, b₅, b₄, b₃, b₂, b₁] at h
  · have h := r₁₀.shows
    rwa [b₉, b₈, hlen, b₆, b₅, b₄, b₃, b₂, b₁] at h
  · rw [r₁.rest, r₂.rest, r₃.rest, r₄.rest, r₅.rest, r₆.rest, hrest, r₈.rest, r₉.rest, r₁₀.rest]
    simp only [TxFields.message, List.append_assoc]

/-! ## `_read` from end to end -/

/-- What follows a check runs only when the check passes, and from the state the check saw. -/
theorem rejectUnless_bind_ok {ok : ParserTx → Bool} {e : ParserError} {k : Unit → Reader Unit} {s s' : ParseState}
    {u : Unit} (h : (rejectUnless ok e >>= k).run s = .ok u s') : ok s.v = true ∧ (k ()).run s = .ok u s' := by
  by_cases hok : ok s.v = true
  · exact ⟨hok, by rwa [run_bind_of_ok ((run_rejectUnless ok e s).trans (if_pos hok))] at h⟩
  · rw [run_bind_of_error ((run_rejectUnless ok e s).trans (if_neg hok))] at h
    cases h

/-- A read of the tag count consumes the number it stores. -/
theorem readTagsCount_ok {mem : Mem} {s s' : ParseState} {u : Unit} (hv : s.c.Valid mem)
    (h : (parserReadU16 mem .tagsCount).run s = .ok u s') :
    s'.c.Valid mem ∧ s'.c.bufferLen = s.c.bufferLen ∧ (∀ l, s'.v.element l = s.v.element l) ∧
      s.c.unread mem = be16 s'.v.tagsCount ++ s'.c.unread mem := by
  rw [run_parserReadU16 mem _ hv.small] at h
  split at h
  · rename_i h2
    obtain ⟨hi, lo, hu⟩ := hv.unread_cons h2
    have hval := hv.next16_eq hu
    cases h
    refine ⟨⟨hv.buffer, hv.fits, hv.small, h2⟩, rfl, ?_, ?_⟩
    · intro l
      cases l <;> rfl
    · rw [hu]
      simp only [ParseState.advance, ParserTx.setU16, hval, be16_ofBe16]
      rfl
  · cases h

/-- Where the message goes on with a number, the read of the tag count stores it. -/
theorem readTagsCount_of_be16 {mem : Mem} {s : ParseState} (hv : s.c.Valid mem) {n : Nat} {t : List UInt8}
    (hn : n < 65536) (hu : s.c.unread mem = be16 n ++ t) :
    ∃ s', (parserReadU16 mem .tagsCount).run s = .ok () s' ∧ s'.v.tagsCount = n ∧ s'.c.unread mem = t := by
  have hval : next16 mem s.c = n := by
    rw [hv.next16_eq hu]
    exact ofBe16_be16 hn
  have hlen := hv.length_unread
  have hin := hv.inside
  rw [hu, List.length_append, length_be16] at hlen
  refine ⟨_, (run_parserReadU16 mem _ hv.small).trans (if_pos (by omega)), hval, ?_⟩
  have ht : t = (s.c.unread mem).drop 2 := by rw [hu]; rfl
  rw [ht]
  simp only [ParserContext.unread, ParseState.advance, List.drop_drop]

/-- The first byte of an element that shows one byte. -/
theorem Shows.byteAt {mem : Mem} {n : Nat} {e : ParserElement} {b : UInt8} (h : Shows mem n e [b]) :
    byteAt mem e.ptr 0 = b := by
  obtain ⟨p, hp, -, hs⟩ := h.view
  have h0 : (slice mem p 1)[0]? = some b := by
    rw [show slice mem p 1 = [b] from hs]
    rfl
  simp only [slice, List.getElem?_take, List.getElem?_drop] at h0
  rw [LedgerArweave.byteAt, hp, Option.getD_some, List.getD_eq_getElem?_getD]
  simp only [Nat.zero_lt_one, if_true] at h0
  rw [h0, Option.getD_some]

/-- `_read` checks that the format is the one character 2. -/
theorem formatOk_iff {mem : Mem} {n : Nat} {v : ParserTx} {f : List UInt8} (h : Shows mem n v.format f) :
    formatOk mem v = true ↔ f = [50] := by
  simp only [formatOk, decide_eq_true_eq, h.len]
  constructor
  · rintro ⟨h1, h2⟩
    obtain ⟨b, rfl⟩ := List.length_eq_one_iff.1 h1
    rw [h.byteAt] at h2
    rw [h2]
  · rintro rfl
    exact ⟨rfl, h.byteAt⟩

/-- A successful `_read` has consumed the message of an acceptable transaction, and the object shows that transaction. -/
theorem read_ok {mem : Mem} {s s' : ParseState} {u : Unit} (hv : s.c.Valid mem) (h : (read mem).run s = .ok u s') :
    ∃ f : TxFields, f.Acceptable ∧ s'.v.Holds mem s.c.bufferLen f ∧
      s.c.unread mem = f.message ++ s'.c.unread mem ∧ s'.c.Valid mem ∧ s'.c.bufferLen = s.c.bufferLen := by
  unfold read at h
  obtain ⟨_, s₁, h1, h⟩ := run_bind_eq_ok.1 h
  obtain ⟨hformat, h⟩ := rejectUnless_bind_ok h
  obtain ⟨_, s₂, h2, h⟩ := run_bind_eq_ok.1 h
  obtain ⟨howner, h⟩ := rejectUnless_bind_ok h
  obtain ⟨_, s₃, h3, h⟩ := run_bind_eq_ok.1 h
  obtain ⟨_, s₄, h4, h⟩ := run_bind_eq_ok.1 h
  obtain ⟨_, s₅, h5, h⟩ := run_bind_eq_ok.1 h
  obtain ⟨_, s₆, h6, h⟩ := run_bind_eq_ok.1 h
  obtain ⟨_, s₇, h7, h⟩ := run_bind_eq_ok.1 h
  obtain ⟨hcount, h⟩ := rejectUnless_bind_ok h
  rw [run_bind_of_ok (run_get _)] at h
  obtain ⟨_, s₈, h8, h⟩ := run_bind_eq_ok.1 h
  obtain ⟨_, s₉, h9, h10⟩ := run_bind_eq_ok.1 h
  obtain ⟨f₁, -, r₁⟩ := readElement_ok .format trivial hv h1
  obtain ⟨f₂, -, r₂⟩ := readElement_ok .owner trivial r₁.valid h2
  obtain ⟨f₃, -, r₃⟩ := readElement_ok .target trivial r₂.valid h3
  obtain ⟨f₄, -, r₄⟩ := readElement_ok .quantity trivial r₃.valid h4
  obtain ⟨f₅, -, r₅⟩ := readElement_ok .reward trivial r₄.valid h5
  obtain ⟨f₆, -, r₆⟩ := readElement_ok .lastTx trivial r₅.valid h6
  obtain ⟨hv7, hlen7, hel7, hrest7⟩ := readTagsCount_ok r₆.valid h7
  have hcount' : s₇.v.tagsCount ≤ 16 := of_decide_eq_true hcount
  obtain ⟨ts, hts, -, r₈⟩ := readTags_ok _ 0 s₇ s₈ _ (by omega) hv7 h8
  obtain ⟨f₉, -, r₉⟩ := readElement_ok .dataSize trivial r₈.valid h9
  obtain ⟨f₁₀, -, r₁₀⟩ := readElement_ok .dataRoot trivial r₉.valid h10
  have hf : f₁ = [50] := (formatOk_iff r₁.shows).1 hformat
  have ho : f₂.length = 512 := r₂.shows.len.symm.trans (of_decide_eq_true howner)
  rw [← hts] at hrest7
  obtain ⟨hholds, hmsg⟩ := holds_of_reads ⟨f₁, f₂, f₃, f₄, f₅, f₆, ts, f₉, f₁₀⟩ r₁ r₂ r₃ r₄ r₅ r₆ hel7 hts.symm
    hlen7 hrest7 r₈ r₉ r₁₀
  refine ⟨_, ⟨hf, ho, by simpa [hts] using hcount'⟩, hholds, hmsg, r₁₀.valid, ?_⟩
  rw [r₁₀.bufferLen, r₉.bufferLen, r₈.bufferLen, hlen7, r₆.bufferLen, r₅.bufferLen, r₄.bufferLen, r₃.bufferLen,
    r₂.bufferLen, r₁.bufferLen]

/-- A tag of a list is at most as long as the tags together. -/
theorem length_tagMessage_le {ts : List (List UInt8 × List UInt8)} {t : List UInt8 × List UInt8} (ht : t ∈ ts) :
    t.1.length + t.2.length + 4 ≤ (ts.flatMap tagMessage).length := by
  induction ts with
  | nil => cases ht
  | cons a ts ih =>
    rw [List.flatMap_cons, List.length_append]
    rcases List.mem_cons.1 ht with rfl | ht
    · simp only [tagMessage, List.length_append, length_prefixed]
      omega
    · have := ih ht
      omega

/-- `_read` succeeds on the message of every acceptable transaction, whatever follows it in the buffer, and the object then
shows that transaction. -/
theorem read_of_message {mem : Mem} {s : ParseState} (hv : s.c.Valid mem) {f : TxFields} (hf : f.Acceptable)
    {t : List UInt8} (hu : s.c.unread mem = f.message ++ t) :
    ∃ s', (read mem).run s = .ok () s' ∧ s'.v.Holds mem s.c.bufferLen f ∧ s'.c.unread mem = t := by
  -- the buffer is shorter than 65536 bytes, so every length in the message is one
  have hlen := hv.length_unread
  have hbuf := hv.small
  rw [hu] at hlen
  simp only [TxFields.message, List.length_append, length_prefixed, length_be16] at hlen
  have htags : ∀ t ∈ f.tags, t.1.length < 65536 ∧ t.2.length < 65536 := by
    intro t ht
    have := length_tagMessage_le ht
    omega
  have hn := hf.tags
  simp only [TxFields.message, List.append_assoc] at hu
  obtain ⟨s₁, h1, r₁, u₁⟩ := readElement_of_prefixed .format trivial hv (by omega) hu
  obtain ⟨s₂, h2, r₂, u₂⟩ := readElement_of_prefixed .owner trivial r₁.valid (by omega) u₁
  obtain ⟨s₃, h3, r₃, u₃⟩ := readElement_of_prefixed .target trivial r₂.valid (by omega) u₂
  obtain ⟨s₄, h4, r₄, u₄⟩ := readElement_of_prefixed .quantity trivial r₃.valid (by omega) u₃
  obtain ⟨s₅, h5, r₅, u₅⟩ := readElement_of_prefixed .reward trivial r₄.valid (by omega) u₄
  obtain ⟨s₆, h6, r₆, u₆⟩ := readElement_of_prefixed .lastTx trivial r₅.valid (by omega) u₅
  obtain ⟨s₇, h7, hcount, u₇⟩ := readTagsCount_of_be16 r₆.valid (by omega) u₆
  obtain ⟨hv7, hlen7, hel7, hrest7⟩ := readTagsCount_ok r₆.valid h7
  rw [hcount] at hrest7
  obtain ⟨s₈, h8, r₈, u₈⟩ := readTags_of_tags f.tags 0 s₇ _ (by omega) hv7 htags u₇
  obtain ⟨s₉, h9, r₉, u₉⟩ := readElement_of_prefixed .dataSize trivial r₈.valid (by omega) u₈
  obtain ⟨s', h10, r₁₀, u₁₀⟩ := readElement_of_prefixed .dataRoot trivial r₉.valid (by omega) u₉
  have hformat : formatOk mem s₁.v = true := (formatOk_iff r₁.shows).2 hf.format
  have howner : decide (s₂.v.owner.len = 512) = true := decide_eq_true (r₂.shows.len.trans hf.owner)
  have hmax : decide (s₇.v.tagsCount ≤ maxNumberTags) = true := decide_eq_true (hcount ▸ hn)
  refine ⟨s', ?_, (holds_of_reads f r₁ r₂ r₃ r₄ r₅ r₆ hel7 hcount hlen7 hrest7 r₈ r₉ r₁₀).1, u₁₀⟩
  unfold read
  rw [run_bind_of_ok h1, run_bind_of_ok ((run_rejectUnless _ _ s₁).trans (if_pos hformat)), run_bind_of_ok h2,
    run_bind_of_ok ((run_rejectUnless _ _ s₂).trans (if_pos howner)), run_bind_of_ok h3, run_bind_of_ok h4,
    run_bind_of_ok h5, run_bind_of_ok h6, run_bind_of_ok h7,
    run_bind_of_ok ((run_rejectUnless _ _ s₇).trans (if_pos hmax)), run_bind_of_ok (run_get s₇), hcount,
    run_bind_of_ok h8, run_bind_of_ok h9, h10]

/-! ## `parser_parse` -/

/-- The context `parser_parse` starts to read with, over a buffer at the start of the region. -/
def ParserContext.initial (n : Nat) : ParserContext := ⟨some 0, n % 65536, 0⟩

theorem ParserContext.initial_valid {mem : Mem} {n : Nat} (hn : n ≤ mem.length) :
    (ParserContext.initial n).Valid mem :=
  ⟨rfl, Nat.le_trans (Nat.mod_le _ _) hn, Nat.mod_lt _ (by decide), Nat.zero_le _⟩

/-- `parser_parse` on a buffer at the start of the region: nothing but a reset of the context when the 16-bit length is zero,
otherwise `_read` from the start. -/
theorem run_parserParse (mem : Mem) (n : Nat) (s : ParseState) :
    (parserParse mem (some 0) n).run s =
      if n < 1 then .error .noData s
      else if n % 65536 = 0 then .error .initContextEmpty { s with c := ParserContext.zero }
      else (read mem).run { s with c := ParserContext.initial n } := by
  unfold parserParse
  rw [run_ite]
  split
  · rfl
  · split
    · rename_i h
      rw [run_bind_of_error ((run_parserInit _ _ s).trans (if_pos (Or.inl h)))]
    · rename_i h
      rw [run_bind_of_ok ((run_parserInit _ _ s).trans (if_neg (by simpa using h)))]
      rfl

/-- A successful `parser_parse` of a buffer has found the message of an acceptable transaction at its start, and the object
shows that transaction. -/
theorem parserParse_ok {mem : Mem} {n : Nat} (hn : n ≤ mem.length) {s s' : ParseState} {u : Unit}
    (h : (parserParse mem (some 0) n).run s = .ok u s') :
    ∃ f : TxFields, f.Acceptable ∧ s'.v.Holds mem (n % 65536) f ∧ s'.c.Valid mem ∧ s'.c.bufferLen = n % 65536 ∧
      mem.take s'.c.offset = f.message := by
  rw [run_parserParse] at h
  split at h
  · cases h
  · split at h
    · cases h
    · have hv : (ParserContext.initial n).Valid mem := ParserContext.initial_valid hn
      obtain ⟨f, hf, hholds, hmsg, hv', hlen⟩ := read_ok (by exact hv) h
      refine ⟨f, hf, hholds, hv', hlen, ?_⟩
      have hrest : (ParserContext.initial n).unread mem = f.message ++ s'.c.unread mem := hmsg
      have hin := hv'.inside
      have hfits := hv'.fits
      rw [ParserContext.unread, ParserContext.unread, hlen] at hrest
      simp only [ParserContext.initial, List.drop_zero] at hrest hlen
      have hcut := List.take_append_drop s'.c.offset (mem.take (n % 65536))
      have hlen' : ((mem.take (n % 65536)).take s'.c.offset).length = f.message.length := by
        have h1 := congrArg List.length hcut
        have h2 := congrArg List.length hrest
        rw [List.length_append] at h1 h2
        omega
      rw [hrest] at hcut
      have := (List.append_inj hcut (by rw [← hrest]; exact hlen')).1
      rw [← hrest, List.take_take, Nat.min_eq_left (by omega)] at this
      exact this

/-- A buffer that opens with the message of an acceptable transaction is parsed, and the object shows that transaction. -/
theorem parserParse_of_message {mem : Mem} {n : Nat} (hn : n ≤ mem.length) {f : TxFields} (hf : f.Acceptable) {t : List UInt8}
    (hm : mem.take (n % 65536) = f.message ++ t) (s : ParseState) :
    ∃ s', (parserParse mem (some 0) n).run s = .ok () s' ∧ s'.v.Holds mem (n % 65536) f := by
  have hlen := congrArg List.length hm
  have hpos : 0 < f.message.length := by
    simp only [TxFields.message, List.length_append, length_be16]
    omega
  rw [List.length_append, List.length_take] at hlen
  obtain ⟨s', hrun, hholds, -⟩ := read_of_message (s := { s with c := ParserContext.initial n })
    (ParserContext.initial_valid hn) hf (t := t) (by simpa only [ParserContext.unread, ParserContext.initial, List.drop_zero])
  refine ⟨s', ?_, hholds⟩
  rw [run_parserParse, if_neg (by omega), if_neg (by omega)]
  exact hrun

end LedgerArweave
