import LedgerArweave.Parser.Accept
import LedgerArweave.Lib.DeepHash

/-!
# The digest of a transaction

`parser.c`, from `hashTag` to `parser_getDigest`: the deep hash of the transaction object, computed in place over one pair of
48-byte buffers per level of nesting.
-/

namespace LedgerArweave

open Lib

/-- The function `crypto_sha384` computes on this platform. -/
abbrev Sha384 : Type := List UInt8 → Except ZxErr (ByteArr 48)

/-- `CONVERT_ZXERROR`. -/
def convertZxerror {α : Type} : Except ZxErr α → Except ParserError α
  | .ok a => .ok a
  | .error _ => .error .unexpectedError

/-- What `snprintf` leaves of a text in a buffer of `size` bytes, read back as a C string. -/
def snprintf (size : Nat) (text : List UInt8) : List UInt8 := (text.take (size - 1)).takeWhile (· ≠ 0)

/-- `deepHash_t`: the accumulator and the hash to fold in next; `pair` is the two of them in a row. -/
structure DeepHashPair where
  acc : ByteArr 48
  hash : ByteArr 48

/-- The 96 bytes of the pair. -/
def DeepHashPair.pair (dh : DeepHashPair) : List UInt8 := dh.acc.1 ++ dh.hash.1

section

variable (sha384 : Sha384)

/-- `hashTag`. -/
def hashTag (tagName : String) (tagNumber : Nat) : Except ParserError (ByteArr 48) :=
  convertZxerror (sha384 (snprintf 50 (ascii tagName ++ decimal tagNumber)))

/-- `hashBlob`: `taggedHash_t` is the hash of the tag followed by the hash of the data. -/
def hashBlob (data : List UInt8) (dataLen : Nat) : Except ParserError (ByteArr 48) := do
  let tagHash ← hashTag sha384 "blob" dataLen
  let dataHash ← convertZxerror (sha384 data)
  convertZxerror (sha384 (tagHash.1 ++ dataHash.1))

/-- `hashAccumulate`. -/
def hashAccumulate (dh : DeepHashPair) : Except ParserError DeepHashPair := do
  let temp ← convertZxerror (sha384 dh.pair)
  return { dh with acc := temp }

/-- `hashChunkWithAccumulator` on an element. -/
def hashChunkWithAccumulator (mem : Mem) (dh : DeepHashPair) (v : ParserElement) : Except ParserError DeepHashPair := do
  let hash ← hashBlob sha384 (v.bytes mem) v.len
  hashAccumulate sha384 { dh with hash := hash }

/-- `parser_getTagDigest`. -/
def parserGetTagDigest (mem : Mem) (tagObject : ParserTag) : Except ParserError (ByteArr 48) := do
  let acc ← hashTag sha384 "list" 2
  let ctx ← hashChunkWithAccumulator sha384 mem ⟨acc, ByteArr.zero 48⟩ tagObject.key
  let ctx ← hashChunkWithAccumulator sha384 mem ctx tagObject.value
  return ctx.acc

/-- The loop of `parser_applyDigestTags` over the tags from `i` on, `n` of them. -/
def accumulateTagDigests (mem : Mem) (v : ParserTx) : (n i : Nat) → DeepHashPair → Except ParserError DeepHashPair
  | 0, _, ctx => return ctx
  | n + 1, i, ctx => do
    let hash ← parserGetTagDigest sha384 mem (v.tag i)
    let ctx ← hashAccumulate sha384 { ctx with hash := hash }
    accumulateTagDigests mem v n (i + 1) ctx

/-- `parser_applyDigestTags`. -/
def parserApplyDigestTags (mem : Mem) (v : ParserTx) (dh : DeepHashPair) : Except ParserError DeepHashPair := do
  let acc ← hashTag sha384 "list" v.tagsCount
  let ctx ← accumulateTagDigests sha384 mem v v.tagsCount 0 ⟨acc, ByteArr.zero 48⟩
  hashAccumulate sha384 { dh with hash := ctx.acc }

/-- `parser_getDigest`: the digest buffer of `digestLen` bytes it fills. -/
def parserGetDigest (mem : Mem) (v : ParserTx) (digestLen : Nat) : Except ParserError (List UInt8) := do
  if digestLen < sha384DigestLen then throw .unexpectedBufferEnd
  let acc ← hashTag sha384 "list" 9
  let ctx ← hashChunkWithAccumulator sha384 mem ⟨acc, ByteArr.zero 48⟩ v.format
  let ctx ← hashChunkWithAccumulator sha384 mem ctx v.owner
  let ctx ← hashChunkWithAccumulator sha384 mem ctx v.target
  let ctx ← hashChunkWithAccumulator sha384 mem ctx v.quantity
  let ctx ← hashChunkWithAccumulator sha384 mem ctx v.reward
  let ctx ← hashChunkWithAccumulator sha384 mem ctx v.lastTx
  let ctx ← parserApplyDigestTags sha384 mem v ctx
  let ctx ← hashChunkWithAccumulator sha384 mem ctx v.dataSize
  let ctx ← hashChunkWithAccumulator sha384 mem ctx v.dataRoot
  return patch (List.replicate digestLen 0) 0 ctx.acc.1

/-- The digest fills its buffer. -/
theorem length_parserGetDigest {mem : Mem} {v : ParserTx} {digestLen : Nat} {digest : List UInt8}
    (h : parserGetDigest sha384 mem v digestLen = .ok digest) : digest.length = digestLen := by
  unfold parserGetDigest at h
  split at h
  · cases h
  rename_i hlen
  obtain ⟨_, -, h⟩ := except_bind_ok h
  obtain ⟨_, -, h⟩ := except_bind_ok h
  obtain ⟨_, -, h⟩ := except_bind_ok h
  obtain ⟨_, -, h⟩ := except_bind_ok h
  obtain ⟨_, -, h⟩ := except_bind_ok h
  obtain ⟨_, -, h⟩ := except_bind_ok h
  obtain ⟨_, -, h⟩ := except_bind_ok h
  obtain ⟨_, -, h⟩ := except_bind_ok h
  obtain ⟨_, -, h⟩ := except_bind_ok h
  obtain ⟨ctx, -, h⟩ := except_bind_ok h
  cases h
  have hacc := ctx.acc.2
  rw [length_patch (by simp only [List.length_replicate, sha384DigestLen] at *; omega), List.length_replicate]

/-! ## The bytes behind the elements -/

variable {mem mem' : Mem}

theorem hashChunkWithAccumulator_congr {e : ParserElement} (h : e.bytes mem' = e.bytes mem) (dh : DeepHashPair) :
    hashChunkWithAccumulator sha384 mem' dh e = hashChunkWithAccumulator sha384 mem dh e := by
  rw [hashChunkWithAccumulator, hashChunkWithAccumulator, h]

theorem accumulateTagDigests_congr {v : ParserTx} :
    ∀ (n i : Nat) (ctx : DeepHashPair), (∀ j, i ≤ j → j < i + n →
        (v.tag j).key.bytes mem' = (v.tag j).key.bytes mem ∧ (v.tag j).value.bytes mem' = (v.tag j).value.bytes mem) →
      accumulateTagDigests sha384 mem' v n i ctx = accumulateTagDigests sha384 mem v n i ctx := by
  intro n
  induction n with
  | zero =>
    intro i ctx _
    rfl
  | succ n ih =>
    intro i ctx h
    obtain ⟨hk, hw⟩ := h i (Nat.le_refl i) (by omega)
    have htag : parserGetTagDigest sha384 mem' (v.tag i) = parserGetTagDigest sha384 mem (v.tag i) := by
      simp only [parserGetTagDigest, hashChunkWithAccumulator_congr sha384 hk, hashChunkWithAccumulator_congr sha384 hw]
    have hrest := fun ctx => ih (i + 1) ctx fun j h1 h2 => h j (by omega) (by omega)
    simp only [accumulateTagDigests, htag, hrest]

/-- The digest depends on the content the object shows only. -/
theorem parserGetDigest_congr {n n' : Nat} {v : ParserTx} {f : TxFields} (h : v.Holds mem n f) (h' : v.Holds mem' n' f)
    (digestLen : Nat) : parserGetDigest sha384 mem' v digestLen = parserGetDigest sha384 mem v digestLen := by
  have hbytes : ∀ {e : ParserElement} {b : List UInt8}, Shows mem n e b → Shows mem' n' e b → e.bytes mem' = e.bytes mem :=
    fun h h' => h'.bytes.trans h.bytes.symm
  have htags : ∀ ctx, accumulateTagDigests sha384 mem' v v.tagsCount 0 ctx =
      accumulateTagDigests sha384 mem v v.tagsCount 0 ctx := by
    intro ctx
    refine accumulateTagDigests_congr sha384 v.tagsCount 0 ctx ?_
    intro j _ hj
    rw [Nat.zero_add, h.count] at hj
    obtain ⟨hk, hw⟩ := h.tags j _ (List.getElem?_eq_getElem hj)
    obtain ⟨hk', hw'⟩ := h'.tags j _ (List.getElem?_eq_getElem hj)
    exact ⟨hbytes hk hk', hbytes hw hw'⟩
  simp only [parserGetDigest, parserApplyDigestTags, htags,
    hashChunkWithAccumulator_congr sha384 (hbytes h.format h'.format),
    hashChunkWithAccumulator_congr sha384 (hbytes h.owner h'.owner),
    hashChunkWithAccumulator_congr sha384 (hbytes h.target h'.target),
    hashChunkWithAccumulator_congr sha384 (hbytes h.quantity h'.quantity),
    hashChunkWithAccumulator_congr sha384 (hbytes h.reward h'.reward),
    hashChunkWithAccumulator_congr sha384 (hbytes h.lastTx h'.lastTx),
    hashChunkWithAccumulator_congr sha384 (hbytes h.dataSize h'.dataSize),
    hashChunkWithAccumulator_congr sha384 (hbytes h.dataRoot h'.dataRoot)]

end

end LedgerArweave
