import LedgerArweave.Theorems.Digest

/-!
# The digest binds the transaction

Two transactions with one digest are the same transaction, or two different strings among those the two computations hash have
the same hash. The computation stops at the first error of the hash function and is not influenced by it otherwise, so the
strings it hashes are those on which an error of the hash function is an error of the computation.
-/

namespace LedgerArweave

open Lib

section

variable (H : List UInt8 → ByteArr 48)

/-- A hash function that fails on one string. -/
def sha384Without (x : List UInt8) : Sha384 := fun y => if y = x then .error .unknown else .ok (H y)

/-- `parser_getDigest` passes a string to `crypto_sha384`. -/
def PassesToSha384 (mem : Mem) (v : ParserTx) (x : List UInt8) : Prop :=
  ∃ e, parserGetDigest (sha384Without H x) mem v sha384DigestLen = .error e

end

namespace BindingAux

variable {H : List UInt8 → ByteArr 48} {sha384 : Sha384}

/-- The answers of a hash function that may fail. -/
def AnswersAs (sha384 : Sha384) (H : List UInt8 → ByteArr 48) : Prop := ∀ x d, sha384 x = .ok d → d = H x

/-- The hash function answered every string of a list. -/
def Answered (sha384 : Sha384) (xs : List (List UInt8)) : Prop := ∀ x ∈ xs, ∃ d, sha384 x = .ok d

/-! ## A computation that returns has every string answered -/

/-- A hash that was computed is the one the function answers. -/
theorem convertZxerror_ok (hH : AnswersAs sha384 H) {x : List UInt8} {d : ByteArr 48}
    (h : convertZxerror (sha384 x) = .ok d) : sha384 x = .ok d ∧ d = H x := by
  cases hx : sha384 x with
  | error e =>
    rw [hx] at h
    cases h
  | ok a =>
    rw [hx] at h
    cases h
    exact ⟨rfl, hH x d hx⟩

/-- The hash of a name and a length. -/
theorem hashTag_ok (hH : AnswersAs sha384 H) {name : String} (hlen : (ascii name).length = 4) (h0 : 0 ∉ ascii name) {k : Nat}
    (hk : k < 65536) {d : ByteArr 48} (h : hashTag sha384 name k = .ok d) :
    sha384 (ascii name ++ decimal k) = .ok d ∧ d = tagDigest H name k := by
  unfold hashTag at h
  rw [DigestAux.snprintf_tag hlen h0 hk] at h
  exact convertZxerror_ok hH h

/-- The hash of a blob is its deep hash. -/
theorem hashBlob_ok (hH : AnswersAs sha384 H) {data : List UInt8} (hlen : data.length < 65536) {d : ByteArr 48}
    (h : hashBlob sha384 data data.length = .ok d) :
    d = deepHash H (.blob data) ∧ Answered sha384 (hashedStrings H (.blob data)) := by
  unfold hashBlob at h
  obtain ⟨tagHash, htag, h⟩ := except_bind_ok h
  obtain ⟨dataHash, hdata, h⟩ := except_bind_ok h
  obtain ⟨htag, rfl⟩ := hashTag_ok hH (by decide) (by decide) hlen htag
  obtain ⟨hdata, rfl⟩ := convertZxerror_ok hH hdata
  obtain ⟨hpair, rfl⟩ := convertZxerror_ok hH h
  refine ⟨by rw [deepHash, blobDigest], ?_⟩
  intro x hx
  rw [hashedStrings] at hx
  simp only [List.mem_cons, List.not_mem_nil, or_false] at hx
  rcases hx with rfl | rfl | rfl
  · exact ⟨_, htag⟩
  · exact ⟨_, hdata⟩
  · exact ⟨_, hpair⟩

/-- A hash of the accumulator and the last chunk. -/
theorem hashAccumulate_ok (hH : AnswersAs sha384 H) {dh dh' : DeepHashPair} (h : hashAccumulate sha384 dh = .ok dh') :
    dh' = { dh with acc := H dh.pair } ∧ ∃ d, sha384 dh.pair = .ok d := by
  unfold hashAccumulate at h
  obtain ⟨temp, htemp, h⟩ := except_bind_ok h
  obtain ⟨hpair, rfl⟩ := convertZxerror_ok hH htemp
  cases h
  exact ⟨rfl, _, hpair⟩

/-- One more member folded in: its own strings, and the pair, are answered. -/
theorem fold_ok (hH : AnswersAs sha384 H) {dh dh' : DeepHashPair} {x : Chunk} {hash : ByteArr 48}
    (hx : hash = deepHash H x ∧ Answered sha384 (hashedStrings H x))
    (h : hashAccumulate sha384 { dh with hash := hash } = .ok dh') :
    dh' = dh.fold H x ∧ Answered sha384 (hashedInList H dh.acc [x]) := by
  obtain ⟨rfl, hstrings⟩ := hx
  obtain ⟨hdh', hpair⟩ := hashAccumulate_ok hH h
  refine ⟨hdh', ?_⟩
  intro y hy
  rw [hashedInList, hashedInList] at hy
  rcases List.mem_append.1 hy with hy | hy
  · exact hstrings y hy
  · rw [List.mem_singleton.1 hy]
    exact hpair

/-- A field of the transaction is folded in as a blob. -/
theorem hashChunkWithAccumulator_ok (hH : AnswersAs sha384 H) {mem : Mem} {n : Nat} (hn : n < 65536) {e : ParserElement}
    {b : List UInt8} (he : Shows mem n e b) {dh dh' : DeepHashPair}
    (h : hashChunkWithAccumulator sha384 mem dh e = .ok dh') :
    dh' = dh.fold H (.blob b) ∧ Answered sha384 (hashedInList H dh.acc [.blob b]) := by
  obtain ⟨p, -, hfits, -⟩ := he.view
  rw [hashChunkWithAccumulator, he.bytes, he.len] at h
  obtain ⟨hash, hhash, h⟩ := except_bind_ok h
  exact fold_ok hH (hashBlob_ok hH (by omega) hhash) h

/-- Answers to the strings of two folds in a row. -/
theorem Answered.append {acc : ByteArr 48} {l m : List Chunk} (hl : Answered sha384 (hashedInList H acc l))
    (hm : Answered sha384 (hashedInList H (deepHashList H acc l) m)) : Answered sha384 (hashedInList H acc (l ++ m)) := by
  induction l generalizing acc with
  | nil => rwa [deepHashList] at hm
  | cons x l ih =>
    rw [hashedInList] at hl
    rw [deepHashList] at hm
    rw [List.cons_append, hashedInList]
    have hrest := ih (fun y hy => hl y (List.mem_append_right _ (List.mem_cons_of_mem _ hy))) hm
    intro y hy
    rcases List.mem_append.1 hy with hy | hy
    · exact hl y (List.mem_append_left _ hy)
    · rcases List.mem_cons.1 hy with rfl | hy
      · exact hl _ (List.mem_append_right _ (List.mem_cons_self ..))
      · exact hrest y hy

/-- A list whose length was hashed and whose members were folded. -/
theorem Answered.list {l : List Chunk} {d : ByteArr 48} (htag : sha384 (ascii "list" ++ decimal l.length) = .ok d)
    (hl : Answered sha384 (hashedInList H (tagDigest H "list" l.length) l)) :
    Answered sha384 (hashedStrings H (.list l)) := by
  intro x hx
  rw [hashedStrings] at hx
  rcases List.mem_cons.1 hx with rfl | hx
  · exact ⟨d, htag⟩
  · exact hl x hx

/-- The hash of a tag is the deep hash of its name and value. -/
theorem parserGetTagDigest_ok (hH : AnswersAs sha384 H) {mem : Mem} {n : Nat} (hn : n < 65536) {g : ParserTag}
    {t : List UInt8 × List UInt8} (hk : Shows mem n g.key t.1) (hw : Shows mem n g.value t.2) {d : ByteArr 48}
    (h : parserGetTagDigest sha384 mem g = .ok d) :
    d = deepHash H (tagTree t) ∧ Answered sha384 (hashedStrings H (tagTree t)) := by
  unfold parserGetTagDigest at h
  obtain ⟨acc, hacc, h⟩ := except_bind_ok h
  obtain ⟨ctx, hkey, h⟩ := except_bind_ok h
  obtain ⟨ctx', hvalue, h⟩ := except_bind_ok h
  obtain ⟨htag, rfl⟩ := hashTag_ok hH (by decide) (by decide) (by decide) hacc
  obtain ⟨rfl, skey⟩ := hashChunkWithAccumulator_ok hH hn hk hkey
  obtain ⟨rfl, svalue⟩ := hashChunkWithAccumulator_ok hH hn hw hvalue
  cases h
  refine ⟨?_, Answered.list htag (Answered.append (l := [.blob t.1]) skey ?_)⟩
  · rw [tagTree, deepHash, deepHashList, deepHashList, deepHashList]
    rfl
  · rw [deepHashList, deepHashList]
    exact svalue

/-- The loop over the tags, by induction on the tags that are left. -/
theorem accumulateTagDigests_ok (hH : AnswersAs sha384 H) {mem : Mem} {n : Nat} (hn : n < 65536) {v : ParserTx} :
    ∀ (ts : List (List UInt8 × List UInt8)) (i : Nat) (ctx ctx' : DeepHashPair),
      (∀ k t, ts[k]? = some t → Shows mem n (v.tag (i + k)).key t.1 ∧ Shows mem n (v.tag (i + k)).value t.2) →
      accumulateTagDigests sha384 mem v ts.length i ctx = .ok ctx' →
      ctx' = (ts.map tagTree).foldl (DeepHashPair.fold H) ctx ∧
        Answered sha384 (hashedInList H ctx.acc (ts.map tagTree)) := by
  intro ts
  induction ts with
  | nil =>
    intro i ctx ctx' _ h
    cases h
    refine ⟨rfl, ?_⟩
    intro x hx
    rw [List.map_nil, hashedInList] at hx
    cases hx
  | cons t ts ih =>
    intro i ctx ctx' hts h
    obtain ⟨hk, hw⟩ := hts 0 t rfl
    rw [Nat.add_zero] at hk hw
    rw [List.length_cons, accumulateTagDigests] at h
    obtain ⟨hash, hhash, h⟩ := except_bind_ok h
    obtain ⟨ctx₁, hctx, h⟩ := except_bind_ok h
    obtain ⟨rfl, htag⟩ := fold_ok hH (parserGetTagDigest_ok hH hn hk hw hhash) hctx
    obtain ⟨hctx', hrest⟩ := ih (i + 1) _ ctx' (fun k t' hk' => by
      have := hts (k + 1) t' hk'
      rwa [Nat.add_comm k 1, ← Nat.add_assoc] at this) h
    refine ⟨hctx', Answered.append (l := [tagTree t]) htag ?_⟩
    rw [deepHashList, deepHashList]
    exact hrest

/-- The tags are folded in as a list of such pairs; the loop over them is an induction on the list. -/
theorem parserApplyDigestTags_ok (hH : AnswersAs sha384 H) {mem : Mem} {n : Nat} (hn : n < 65536) {v : ParserTx}
    {f : TxFields} (hv : v.Holds mem n f) (htags : f.tags.length ≤ 16) {dh dh' : DeepHashPair}
    (h : parserApplyDigestTags sha384 mem v dh = .ok dh') :
    dh' = dh.fold H (.list (f.tags.map tagTree)) ∧ Answered sha384 (hashedInList H dh.acc [.list (f.tags.map tagTree)]) := by
  unfold parserApplyDigestTags at h
  obtain ⟨acc, hacc, h⟩ := except_bind_ok h
  obtain ⟨ctx, hctx, h⟩ := except_bind_ok h
  rw [hv.count] at hacc hctx
  obtain ⟨htag, rfl⟩ := hashTag_ok hH (by decide) (by decide) (by omega) hacc
  obtain ⟨rfl, hstrings⟩ := accumulateTagDigests_ok hH hn f.tags 0 _ ctx
    (fun k t ht => by rw [Nat.zero_add]; exact hv.tags k t ht) hctx
  have hlen : (f.tags.map tagTree).length = f.tags.length := List.length_map _
  refine fold_ok hH ⟨?_, Answered.list (by rw [hlen]; exact htag) (by rw [hlen]; exact hstrings)⟩ h
  rw [acc_foldl_fold, deepHash, hlen]

/-- When `parser_getDigest` returns, every string of the deep hash of the transaction was answered. -/
theorem parserGetDigest_ok (hH : AnswersAs sha384 H) {mem : Mem} {n : Nat} (hn : n < 65536) {v : ParserTx} {f : TxFields}
    (hv : v.Holds mem n f) (htags : f.tags.length ≤ 16) {digestLen : Nat} {digest : List UInt8}
    (h : parserGetDigest sha384 mem v digestLen = .ok digest) : Answered sha384 (hashedStrings H f.tree) := by
  unfold parserGetDigest at h
  split at h
  · cases h
  obtain ⟨acc, hacc, h⟩ := except_bind_ok h
  obtain ⟨_, h1, h⟩ := except_bind_ok h
  obtain ⟨_, h2, h⟩ := except_bind_ok h
  obtain ⟨_, h3, h⟩ := except_bind_ok h
  obtain ⟨_, h4, h⟩ := except_bind_ok h
  obtain ⟨_, h5, h⟩ := except_bind_ok h
  obtain ⟨_, h6, h⟩ := except_bind_ok h
  obtain ⟨_, h7, h⟩ := except_bind_ok h
  obtain ⟨_, h8, h⟩ := except_bind_ok h
  obtain ⟨_, h9, -⟩ := except_bind_ok h
  obtain ⟨htag, rfl⟩ := hashTag_ok hH (by decide) (by decide) (by decide) hacc
  obtain ⟨rfl, s1⟩ := hashChunkWithAccumulator_ok hH hn hv.format h1
  obtain ⟨rfl, s2⟩ := hashChunkWithAccumulator_ok hH hn hv.owner h2
  obtain ⟨rfl, s3⟩ := hashChunkWithAccumulator_ok hH hn hv.target h3
  obtain ⟨rfl, s4⟩ := hashChunkWithAccumulator_ok hH hn hv.quantity h4
  obtain ⟨rfl, s5⟩ := hashChunkWithAccumulator_ok hH hn hv.reward h5
  obtain ⟨rfl, s6⟩ := hashChunkWithAccumulator_ok hH hn hv.lastTx h6
  obtain ⟨rfl, s7⟩ := parserApplyDigestTags_ok hH hn hv htags h7
  obtain ⟨rfl, s8⟩ := hashChunkWithAccumulator_ok hH hn hv.dataSize h8
  obtain ⟨-, s9⟩ := hashChunkWithAccumulator_ok hH hn hv.dataRoot h9
  refine Answered.list htag ?_
  -- one fold after the other
  have step : ∀ {acc : ByteArr 48} {x : Chunk} {l : List Chunk}, Answered sha384 (hashedInList H acc [x]) →
      Answered sha384 (hashedInList H (H (acc.1 ++ (deepHash H x).1)) l) → Answered sha384 (hashedInList H acc (x :: l)) := by
    intro acc x l hx hl
    refine Answered.append (l := [x]) hx ?_
    rw [deepHashList, deepHashList]
    exact hl
  exact step s1 (step s2 (step s3 (step s4 (step s5 (step s6 (step s7 (step s8 s9)))))))

/-- A hash function that fails on one string answers as before on the others. -/
theorem answersAs_sha384Without (x : List UInt8) : AnswersAs (sha384Without H x) H := by
  intro y d h
  unfold sha384Without at h
  split at h
  · cases h
  · exact (Except.ok.inj h).symm

/-- The strings of the deep hash of a transaction are passed to `crypto_sha384`. -/
theorem passes_of_mem {mem : Mem} {n : Nat} (hn : n < 65536) {v : ParserTx} {f : TxFields} (hv : v.Holds mem n f)
    (htags : f.tags.length ≤ 16) {x : List UInt8} (hx : x ∈ hashedStrings H f.tree) : PassesToSha384 H mem v x := by
  cases hrun : parserGetDigest (sha384Without H x) mem v sha384DigestLen with
  | error e => exact ⟨e, hrun⟩
  | ok digest =>
    obtain ⟨d, hd⟩ := parserGetDigest_ok (answersAs_sha384Without x) hn hv htags hrun x hx
    rw [sha384Without, if_pos rfl] at hd
    cases hd

/-! ## The tree of a transaction -/

/-- The length of a blob has few digits. -/
theorem blob_tagsShort {b : List UInt8} (hb : b.length < 65536) : (Chunk.blob b).TagsShort 48 := by
  have hdec := DigestAux.length_decimal hb
  refine .blob ?_
  rw [List.length_append, show (ascii "blob").length = 4 from rfl]
  omega

/-- So has that of a list, if its members are short. -/
theorem list_tagsShort {l : List Chunk} (hl : l.length < 65536) (hmem : ∀ x ∈ l, x.TagsShort 48) :
    (Chunk.list l).TagsShort 48 := by
  have hdec := DigestAux.length_decimal hl
  refine .list ?_ hmem
  rw [List.length_append, show (ascii "list").length = 4 from rfl]
  omega

/-- What a transaction is hashed from has lengths of few digits throughout. -/
theorem tree_tagsShort {mem : Mem} {n : Nat} (hn : n < 65536) {v : ParserTx} {f : TxFields} (hv : v.Holds mem n f)
    (htags : f.tags.length ≤ 16) : f.tree.TagsShort 48 := by
  have short : ∀ {e : ParserElement} {b : List UInt8}, Shows mem n e b → (Chunk.blob b).TagsShort 48 := by
    intro e b he
    obtain ⟨p, -, hfits, -⟩ := he.view
    exact blob_tagsShort (by omega)
  have htree : ∀ x ∈ f.tags.map tagTree, x.TagsShort 48 := by
    intro x hx
    obtain ⟨t, ht, rfl⟩ := List.mem_map.1 hx
    obtain ⟨i, hi⟩ := List.mem_iff_getElem?.1 ht
    obtain ⟨hk, hw⟩ := hv.tags i t hi
    refine list_tagsShort (by simp only [List.length_cons, List.length_nil]; omega) ?_
    simp only [List.mem_cons, List.not_mem_nil, or_false]
    rintro y (rfl | rfl)
    · exact short hk
    · exact short hw
  refine list_tagsShort (by simp only [List.length_cons, List.length_nil]; omega) ?_
  simp only [List.mem_cons, List.not_mem_nil, or_false]
  rintro x (rfl | rfl | rfl | rfl | rfl | rfl | rfl | rfl | rfl)
  · exact short hv.format
  · exact short hv.owner
  · exact short hv.target
  · exact short hv.quantity
  · exact short hv.reward
  · exact short hv.lastTx
  · exact list_tagsShort (by rw [List.length_map]; omega) htree
  · exact short hv.dataSize
  · exact short hv.dataRoot

/-- A tag is known from its pair of blobs. -/
theorem tagTree_inj : Function.Injective tagTree := by
  intro t t' h
  rw [tagTree, tagTree] at h
  injection h with h
  injection h with hk hrest
  injection hrest with hw
  injection hk with hk
  injection hw with hw
  exact Prod.ext hk hw

/-- The tree of a transaction shows its content. -/
theorem tree_inj {f g : TxFields} (h : f.tree = g.tree) : f = g := by
  rw [TxFields.tree, TxFields.tree] at h
  simp only [Chunk.list.injEq, List.cons.injEq, Chunk.blob.injEq, and_true] at h
  obtain ⟨h1, h2, h3, h4, h5, h6, h7, h8, h9⟩ := h
  exact TxFields.ext h1 h2 h3 h4 h5 h6 (List.map_injective_iff.2 tagTree_inj h7) h8 h9

end BindingAux

/-- Two transactions that `parser_parse` accepted, from any buffers and any states, and that differ in a field, in the number
of tags or in a tag: when `parser_getDigest` returns the same for both, it passed to `crypto_sha384` two different strings with
the same hash. -/
theorem parserGetDigest_binding (H : List UInt8 → ByteArr 48) (mem mem' : Mem) (n n' : Nat) (hn : n ≤ mem.length)
    (hn' : n' ≤ mem'.length) (s s' t t' : ParseState) (hs : (parserParse mem (some 0) n).run s = .ok () s')
    (ht : (parserParse mem' (some 0) n').run t = .ok () t') (hne : s'.v.fields mem ≠ t'.v.fields mem')
    (heq : parserGetDigest (fun x => .ok (H x)) mem s'.v sha384DigestLen =
      parserGetDigest (fun x => .ok (H x)) mem' t'.v sha384DigestLen) :
    ∃ x y, PassesToSha384 H mem s'.v x ∧ PassesToSha384 H mem' t'.v y ∧ x ≠ y ∧ H x = H y := by
  obtain ⟨f, hf, hv, -⟩ := parserParse_ok hn hs
  obtain ⟨g, hg, hw, -⟩ := parserParse_ok hn' ht
  have hsmall : n % 65536 < 65536 := Nat.mod_lt _ (by decide)
  have hsmall' : n' % 65536 < 65536 := Nat.mod_lt _ (by decide)
  have hdigest : deepHash H f.tree = deepHash H g.tree := by
    have h1 := parserGetDigest_of_holds H hsmall hv hf.tags (Nat.le_refl sha384DigestLen)
    have h2 := parserGetDigest_of_holds H hsmall' hw hg.tags (Nat.le_refl sha384DigestLen)
    have h3 := Except.ok.inj (h1.symm.trans (heq.trans h2))
    exact Subtype.ext (List.append_cancel_right h3)
  rcases deepHash_binding (BindingAux.tree_tagsShort hsmall hv hf.tags) _ (BindingAux.tree_tagsShort hsmall' hw hg.tags)
    hdigest with htree | ⟨x, hx, y, hy, hxy, hH⟩
  · rw [hv.fields_eq, hw.fields_eq] at hne
    exact absurd (BindingAux.tree_inj htree) hne
  · exact ⟨x, y, BindingAux.passes_of_mem hsmall hv hf.tags hx, BindingAux.passes_of_mem hsmall' hw hg.tags hy, hxy, hH⟩

/-- Two transactions that differ in their target, with a hash function that has one value. -/
theorem parserGetDigest_binding_two_targets :
    let f := TxFields.oneTag
    let g := { TxFields.oneTag with target := [3, 4] }
    ∃ s' t', (parserParse f.message (some 0) f.message.length).run ⟨ParserContext.zero, ParserTx.zero⟩ = .ok () s' ∧
      (parserParse g.message (some 0) g.message.length).run ⟨ParserContext.zero, ParserTx.zero⟩ = .ok () t' ∧
      ∃ x y, PassesToSha384 (fun _ => ByteArr.zero 48) f.message s'.v x ∧
        PassesToSha384 (fun _ => ByteArr.zero 48) g.message t'.v y ∧ x ≠ y := by
  intro f g
  have hlen : f.message.length < 65536 := by
    rw [← encodeTx_eq_message]
    exact TxFields.length_encodeTx_oneTag
  have hmod : f.message.length % 65536 = f.message.length := Nat.mod_eq_of_lt hlen
  have hg : g.Acceptable := ⟨rfl, List.length_replicate, by decide⟩
  have hopens : ∀ m : List UInt8, m.length = f.message.length → m.take (m.length % 65536) = m ++ [] := by
    intro m hm
    rw [hm, hmod, ← hm, List.take_length, List.append_nil]
  have hlen' : g.message.length = f.message.length := by
    simp only [f, g, TxFields.oneTag, TxFields.message, List.length_append, length_prefixed, List.length_cons]
  obtain ⟨s', hs, hv⟩ := parserParse_of_message (Nat.le_refl _) TxFields.oneTag_acceptable (hopens _ rfl)
    ⟨ParserContext.zero, ParserTx.zero⟩
  obtain ⟨t', ht, hw⟩ := parserParse_of_message (Nat.le_refl _) hg (hopens _ hlen') ⟨ParserContext.zero, ParserTx.zero⟩
  have hconst : ∀ h : TxFields, deepHash (fun _ => ByteArr.zero 48) h.tree = ByteArr.zero 48 := by
    intro h
    rw [TxFields.tree, deepHash]
    simp only [deepHashList]
  have hdigest := parserGetDigest_of_holds (fun _ => ByteArr.zero 48) (Nat.mod_lt _ (by decide)) hv
    TxFields.oneTag_acceptable.tags (Nat.le_refl sha384DigestLen)
  have hdigest' := parserGetDigest_of_holds (fun _ => ByteArr.zero 48) (Nat.mod_lt _ (by decide)) hw hg.tags
    (Nat.le_refl sha384DigestLen)
  rw [hconst] at hdigest hdigest'
  have hne : s'.v.fields f.message ≠ t'.v.fields g.message := by
    rw [hv.fields_eq, hw.fields_eq]
    exact fun h => absurd (congrArg TxFields.target h) (by decide)
  obtain ⟨x, y, hx, hy, hxy, -⟩ := parserGetDigest_binding (fun _ => ByteArr.zero 48) _ _ _ _ (Nat.le_refl _) (Nat.le_refl _)
    _ s' _ t' hs ht hne (hdigest.trans hdigest'.symm)
  exact ⟨s', t', hs, ht, x, y, hx, hy, hxy⟩

end LedgerArweave
