import LedgerArweave.Parser.Digest
import LedgerArweave.Theorems.RoundTrip
import Mathlib.Data.List.TakeWhile

/-!
# The digest is the deep hash of the transaction

One lemma per function of the digest, for elements that show their bytes, then `parser_getDigest` from end to end. The hash is
any function to 48 bytes.
-/

namespace LedgerArweave

open Lib

/-- A tag in the tree that is hashed: its name and its value. -/
def tagTree (t : List UInt8 × List UInt8) : Chunk := .list [.blob t.1, .blob t.2]

/-- The tree a transaction is hashed as. -/
def TxFields.tree (f : TxFields) : Chunk :=
  .list [.blob f.format, .blob f.owner, .blob f.target, .blob f.quantity, .blob f.reward, .blob f.lastTx,
    .list (f.tags.map tagTree), .blob f.dataSize, .blob f.dataRoot]

/-- The pair after one more hash was folded in. -/
def DeepHashPair.fold (H : List UInt8 → ByteArr 48) (dh : DeepHashPair) (x : Chunk) : DeepHashPair :=
  ⟨H (dh.acc.1 ++ (deepHash H x).1), deepHash H x⟩

namespace DigestAux

/-! ## Tags -/

/-- A number of 16 bits has at most five digits. -/
theorem length_decimal {k : Nat} (hk : k < 65536) : (decimal k).length ≤ 5 := by
  unfold decimal
  rw [List.length_map, Nat.length_toDigits_le_iff (by decide) (by decide)]
  omega

/-- The digits of a number are no zero bytes: the text is read back in full. -/
theorem ne_zero_of_mem_decimal {k : Nat} {b : UInt8} (hb : b ∈ decimal k) : b ≠ 0 := by
  obtain ⟨c, hc, rfl⟩ := List.mem_map.1 hb
  have hdigit := Nat.isDigit_of_mem_toDigits (by decide) (by decide) hc
  simp only [Char.isDigit, Bool.and_eq_true, decide_eq_true_eq] at hdigit
  have h1 : 48 ≤ c.toNat := hdigit.1
  have h2 : c.toNat ≤ 57 := hdigit.2
  intro h0
  have := congrArg UInt8.toNat h0
  rw [UInt8.toNat_ofNat'] at this
  simp only [UInt8.toNat_zero] at this
  omega

/-- The texts the digest hashes fit their buffer and hold no zero byte. -/
theorem snprintf_tag {name : String} (hlen : (ascii name).length = 4) (h0 : 0 ∉ ascii name) {k : Nat}
    (hk : k < 65536) : snprintf 50 (ascii name ++ decimal k) = ascii name ++ decimal k := by
  have hdec := length_decimal hk
  unfold snprintf
  rw [List.take_of_length_le (by rw [List.length_append]; omega), List.takeWhile_eq_self_iff]
  intro b hb
  rcases List.mem_append.1 hb with hb | hb
  · exact decide_eq_true fun h => h0 (h ▸ hb)
  · exact decide_eq_true (ne_zero_of_mem_decimal hb)

end DigestAux

section

variable (H : List UInt8 → ByteArr 48)

/-- The hash function as the platform offers it when no call fails. -/
def totalSha384 : Sha384 := fun x => .ok (H x)

/-- The tag of a blob is hashed. -/
theorem hashTag_blob {k : Nat} (hk : k < 65536) : hashTag (totalSha384 H) "blob" k = .ok (tagDigest H "blob" k) := by
  unfold hashTag
  rw [DigestAux.snprintf_tag (by decide) (by decide) hk]
  rfl

/-- The tag of a list is hashed. -/
theorem hashTag_list {k : Nat} (hk : k < 65536) : hashTag (totalSha384 H) "list" k = .ok (tagDigest H "list" k) := by
  unfold hashTag
  rw [DigestAux.snprintf_tag (by decide) (by decide) hk]
  rfl

/-- `hashBlob` on the bytes of an element is the deep hash of a leaf. -/
theorem hashBlob_eq {data : List UInt8} (hlen : data.length < 65536) :
    hashBlob (totalSha384 H) data data.length = .ok (deepHash H (.blob data)) := by
  unfold hashBlob
  rw [hashTag_blob H hlen, deepHash, blobDigest]
  rfl

/-- The accumulator and the last hash are hashed together. -/
theorem hashAccumulate_eq (dh : DeepHashPair) :
    hashAccumulate (totalSha384 H) dh = .ok { dh with acc := H (dh.acc.1 ++ dh.hash.1) } := rfl

/-- A field is folded in as a blob. -/
theorem hashChunkWithAccumulator_eq {mem : Mem} {n : Nat} (hn : n < 65536) {e : ParserElement} {b : List UInt8}
    (he : Shows mem n e b) (dh : DeepHashPair) :
    hashChunkWithAccumulator (totalSha384 H) mem dh e = .ok (dh.fold H (.blob b)) := by
  obtain ⟨p, -, hfits, -⟩ := he.view
  rw [hashChunkWithAccumulator, he.bytes, he.len, hashBlob_eq H (by omega)]
  rfl

/-- A tag is hashed as the list of its name and its value. -/
theorem parserGetTagDigest_eq {mem : Mem} {n : Nat} (hn : n < 65536) {g : ParserTag} {t : List UInt8 × List UInt8}
    (hk : Shows mem n g.key t.1) (hw : Shows mem n g.value t.2) :
    parserGetTagDigest (totalSha384 H) mem g = .ok (deepHash H (tagTree t)) := by
  unfold parserGetTagDigest
  rw [hashTag_list H (by decide)]
  simp only [bind, Except.bind, hashChunkWithAccumulator_eq H hn hk, hashChunkWithAccumulator_eq H hn hw]
  rw [tagTree, deepHash, deepHashList, deepHashList, deepHashList]
  rfl

/-- The loop over the tags folds in the trees of the tags, one after the other. -/
theorem accumulateTagDigests_eq {mem : Mem} {n : Nat} (hn : n < 65536) {v : ParserTx} :
    ∀ (ts : List (List UInt8 × List UInt8)) (i : Nat) (ctx : DeepHashPair),
      (∀ k t, ts[k]? = some t → Shows mem n (v.tag (i + k)).key t.1 ∧ Shows mem n (v.tag (i + k)).value t.2) →
      accumulateTagDigests (totalSha384 H) mem v ts.length i ctx = .ok ((ts.map tagTree).foldl (DeepHashPair.fold H) ctx) := by
  intro ts
  induction ts with
  | nil =>
    intro i ctx _
    rfl
  | cons t ts ih =>
    intro i ctx hts
    obtain ⟨hk, hw⟩ := hts 0 t rfl
    rw [Nat.add_zero] at hk hw
    rw [List.length_cons, accumulateTagDigests, parserGetTagDigest_eq H hn hk hw]
    refine ih (i + 1) (ctx.fold H (tagTree t)) ?_
    intro k t' hk'
    have := hts (k + 1) t' hk'
    rwa [Nat.add_comm k 1, ← Nat.add_assoc] at this

/-- Folding chunks into a pair folds them into its accumulator. -/
theorem acc_foldl_fold (l : List Chunk) (dh : DeepHashPair) :
    (l.foldl (DeepHashPair.fold H) dh).acc = deepHashList H dh.acc l := by
  rw [deepHashList_eq_foldl]
  exact (List.foldl_hom DeepHashPair.acc fun _ _ => rfl).symm

/-- The tags are folded in as the list of all of them. -/
theorem parserApplyDigestTags_eq {mem : Mem} {n : Nat} (hn : n < 65536) {v : ParserTx} {f : TxFields}
    (hv : v.Holds mem n f) (htags : f.tags.length ≤ 16) (dh : DeepHashPair) :
    parserApplyDigestTags (totalSha384 H) mem v dh = .ok (dh.fold H (.list (f.tags.map tagTree))) := by
  have hloop := accumulateTagDigests_eq H hn f.tags 0 ⟨tagDigest H "list" f.tags.length, ByteArr.zero 48⟩
    (by simpa only [Nat.zero_add] using hv.tags)
  have hacc := acc_foldl_fold H (f.tags.map tagTree) ⟨tagDigest H "list" f.tags.length, ByteArr.zero 48⟩
  unfold parserApplyDigestTags
  rw [hv.count, hashTag_list H (by omega)]
  simp only [bind, Except.bind, hloop, hashAccumulate_eq, hacc]
  rw [DeepHashPair.fold, deepHash, List.length_map]

/-- On an object that shows a transaction, the digest is the deep hash of the transaction. -/
theorem parserGetDigest_of_holds {mem : Mem} {n : Nat} (hn : n < 65536) {v : ParserTx} {f : TxFields}
    (hv : v.Holds mem n f) (htags : f.tags.length ≤ 16) {digestLen : Nat} (hd : sha384DigestLen ≤ digestLen) :
    parserGetDigest (totalSha384 H) mem v digestLen =
      .ok ((deepHash H f.tree).1 ++ List.replicate (digestLen - sha384DigestLen) 0) := by
  have hlen : (deepHash H f.tree).1.length = sha384DigestLen := (deepHash H f.tree).2
  unfold parserGetDigest
  rw [if_neg (by omega), hashTag_list H (by decide)]
  simp only [bind, Except.bind, pure, Except.pure, hashChunkWithAccumulator_eq H hn hv.format,
    hashChunkWithAccumulator_eq H hn hv.owner, hashChunkWithAccumulator_eq H hn hv.target,
    hashChunkWithAccumulator_eq H hn hv.quantity, hashChunkWithAccumulator_eq H hn hv.reward,
    hashChunkWithAccumulator_eq H hn hv.lastTx, parserApplyDigestTags_eq H hn hv htags,
    hashChunkWithAccumulator_eq H hn hv.dataSize, hashChunkWithAccumulator_eq H hn hv.dataRoot]
  -- the accumulator at the end is the fold over the nine fields
  have hacc : deepHash H f.tree = (([.blob f.format, .blob f.owner, .blob f.target, .blob f.quantity, .blob f.reward,
      .blob f.lastTx, .list (f.tags.map tagTree), .blob f.dataSize, .blob f.dataRoot] : List Chunk).foldl
        (DeepHashPair.fold H) ⟨tagDigest H "list" 9, ByteArr.zero 48⟩).acc := by
    rw [acc_foldl_fold, TxFields.tree, deepHash]
    rfl
  simp only [List.foldl_cons, List.foldl_nil] at hacc
  rw [← hacc, patch, List.take_zero, List.nil_append, List.drop_replicate, Nat.zero_add, hlen]

end

/-- After every `parser_parse` that succeeds, of any buffer and from any state, `parser_getDigest` is the deep hash of the
content of the transaction the object shows: its nine fields, the tags among them as a list of pairs. -/
theorem parserGetDigest_eq_deepHash (H : List UInt8 → ByteArr 48) (mem : Mem) (n : Nat) (hn : n ≤ mem.length)
    (s s' : ParseState) (h : (parserParse mem (some 0) n).run s = .ok () s') (digestLen : Nat)
    (hd : sha384DigestLen ≤ digestLen) :
    parserGetDigest (fun x => .ok (H x)) mem s'.v digestLen =
      .ok ((deepHash H (s'.v.fields mem).tree).1 ++ List.replicate (digestLen - sha384DigestLen) 0) := by
  obtain ⟨f, hf, hholds, -⟩ := parserParse_ok hn h
  rw [hholds.fields_eq]
  exact parserGetDigest_of_holds H (Nat.mod_lt _ (by decide)) hholds hf.tags hd

/-- The digest of a transaction with one tag, with a hash function that pads its input. -/
theorem parserGetDigest_eq_deepHash_one_tag :
    ∃ s', (parserParse (encodeTx TxFields.oneTag) (some 0) (encodeTx TxFields.oneTag).length).run
        ⟨ParserContext.zero, ParserTx.zero⟩ = .ok () s' ∧
      parserGetDigest (fun x => .ok (ByteArr.ofList 48 x)) (encodeTx TxFields.oneTag) s'.v 48 =
        .ok ((deepHash (ByteArr.ofList 48) (s'.v.fields (encodeTx TxFields.oneTag)).tree).1 ++ []) := by
  obtain ⟨s', hparse, -, -⟩ := RoundTripAux.parserParse_encodeTx TxFields.oneTag_acceptable TxFields.length_encodeTx_oneTag []
    ⟨ParserContext.zero, ParserTx.zero⟩
  rw [List.append_nil] at hparse
  exact ⟨s', hparse, parserGetDigest_eq_deepHash _ _ _ (Nat.le_refl _) _ s' hparse 48 (by decide)⟩

end LedgerArweave
