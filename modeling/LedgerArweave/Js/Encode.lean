import LedgerArweave.Parser.Message

/-!
# The encoder of the host

`index.js`, from `encodeu16` to `prepareChunks`. A transaction object is given by the bytes the encoder reads from it: the raw
bytes of its fields, and the texts of its format, quantity, reward and data size.
-/

namespace LedgerArweave

open Lib

/-- `encodeu16`: a number of any size is cut to its last two bytes. -/
def encodeu16 (u16Value : Nat) : List UInt8 := [UInt8.ofNat (u16Value >>> 8), UInt8.ofNat (u16Value &&& 0xff)]

/-- `concatArray`. -/
def concatArray (a b : List UInt8) : List UInt8 := a ++ b

/-- `encodeWithLen`. -/
def encodeWithLen (input : List UInt8) : List UInt8 := concatArray (encodeu16 input.length) input

/-- `flatten`. -/
def flatten (input : List (List UInt8)) : List UInt8 := input.foldl concatArray []

/-- The loop of `encodeTx` over the tags: the name and the value of each are pushed in turn. -/
def serializedTags (tags : List (List UInt8 × List UInt8)) : List (List UInt8) :=
  tags.foldl (fun acc currentTag => acc ++ [encodeWithLen currentTag.1, encodeWithLen currentTag.2]) []

/-- `encodeTx`. -/
def encodeTx (tx : TxFields) : List UInt8 :=
  let flatSerializedTags := flatten (serializedTags tx.tags)
  flatten [
    encodeWithLen tx.format,
    encodeWithLen tx.owner,
    encodeWithLen tx.target,
    encodeWithLen tx.quantity,
    encodeWithLen tx.reward,
    encodeWithLen tx.lastTx,
    encodeu16 tx.tags.length,
    flatSerializedTags,
    encodeWithLen tx.dataSize,
    encodeWithLen tx.dataRoot]

def chunkSize : Nat := 250

/-- The indices of `for (let i = 0; i < length; i += CHUNK_SIZE)`. -/
def chunkStarts (length : Nat) : List Nat := List.range' 0 ((length + chunkSize - 1) / chunkSize) chunkSize

/-- The loop of `prepareChunks` over a buffer: pieces of 250 bytes, the last one shorter. -/
def sliceChunks (buffer : List UInt8) : List (List UInt8) :=
  (chunkStarts buffer.length).map fun i => slice buffer i chunkSize

/-- `prepareChunks`: 20 zero bytes, then the pieces of the encoded transaction. -/
def prepareChunks (message : TxFields) : List (List UInt8) :=
  List.replicate 20 0 :: sliceChunks (encodeTx message)

/-! ## What the encoder writes -/

/-- `encodeu16` writes a 16-bit number. -/
theorem encodeu16_eq (n : Nat) : encodeu16 n = be16 n := by
  have e1 : n >>> 8 = n / 256 := Nat.shiftRight_eq_div_pow n 8
  have e2 : UInt8.ofNat (n &&& 0xff) = UInt8.ofNat n := by
    apply UInt8.toNat.inj
    rw [UInt8.toNat_ofNat', UInt8.toNat_ofNat', Nat.and_two_pow_sub_one_eq_mod n 8, Nat.mod_mod]
  rw [encodeu16, be16, e1, e2]

/-- `encodeWithLen` puts the length in front. -/
theorem encodeWithLen_eq (input : List UInt8) : encodeWithLen input = prefixed input := by
  rw [encodeWithLen, concatArray, encodeu16_eq, prefixed]

/-- `flatten` puts lists end to end. -/
theorem flatten_eq (input : List (List UInt8)) : flatten input = input.flatten := by
  have key : ∀ (l : List (List UInt8)) (acc : List UInt8), l.foldl concatArray acc = acc ++ l.flatten := by
    intro l
    induction l with
    | nil => simp
    | cons x l ih => intro acc; simp [ih, concatArray]
  rw [flatten, key, List.nil_append]

/-- The serialized tags, flattened, are the tags of the message. -/
theorem flatten_serializedTags (tags : List (List UInt8 × List UInt8)) :
    flatten (serializedTags tags) = tags.flatMap tagMessage := by
  have key : ∀ (l : List (List UInt8 × List UInt8)) (acc : List (List UInt8)),
      (l.foldl (fun acc t => acc ++ [encodeWithLen t.1, encodeWithLen t.2]) acc).flatten =
        acc.flatten ++ l.flatMap tagMessage := by
    intro l
    induction l with
    | nil => simp
    | cons t l ih =>
      intro acc
      rw [List.foldl_cons, ih]
      simp [encodeWithLen_eq, tagMessage]
  rw [flatten_eq, serializedTags, key, List.flatten_nil, List.nil_append]

/-- The encoder writes the documented message. -/
theorem encodeTx_eq_message (tx : TxFields) : encodeTx tx = tx.message := by
  unfold encodeTx
  rw [flatten_serializedTags, flatten_eq]
  simp [TxFields.message, encodeWithLen_eq, encodeu16_eq]

/-! ## The chunks -/

/-- A message has pieces. -/
theorem sliceChunks_ne_nil {buffer : List UInt8} (h : buffer ≠ []) : sliceChunks buffer ≠ [] := by
  have hpos := List.length_pos_iff.2 h
  intro hnil
  have hlen := congrArg List.length hnil
  simp only [sliceChunks, chunkStarts, chunkSize, List.length_map, List.length_range', List.length_nil] at hlen
  omega

/-- The pieces of a buffer, put end to end, are the buffer. -/
theorem flatten_sliceChunks (buffer : List UInt8) : (sliceChunks buffer).flatten = buffer := by
  unfold sliceChunks
  rw [chunkStarts, flatten_slices, slice, List.drop_zero]
  refine List.take_of_length_le ?_
  simp only [chunkSize]
  omega

/-- A chunk fits an APDU. -/
theorem length_chunk_le {message : TxFields} {chunk : List UInt8} (h : chunk ∈ prepareChunks message) :
    chunk.length ≤ chunkSize := by
  rcases List.mem_cons.1 h with rfl | h
  · exact Nat.le_of_ble_eq_true rfl
  · obtain ⟨i, -, rfl⟩ := List.mem_map.1 h
    exact length_slice_le _ _ _

/-- No transaction is encoded as nothing. -/
theorem encodeTx_ne_nil (tx : TxFields) : encodeTx tx ≠ [] := by
  rw [encodeTx_eq_message, TxFields.message, prefixed, be16]
  simp

/-! ## A transaction -/

/-- A transaction with one tag. -/
def TxFields.oneTag : TxFields :=
  ⟨ascii "2", List.replicate 512 0, [1, 2], ascii "10", ascii "3", [], [([0], [0, 1])], ascii "0", []⟩

theorem TxFields.oneTag_acceptable : TxFields.oneTag.Acceptable := ⟨rfl, List.length_replicate, by decide⟩

theorem TxFields.length_encodeTx_oneTag : (encodeTx TxFields.oneTag).length < 65536 := by
  simp only [encodeTx_eq_message, oneTag, TxFields.message, tagMessage, List.length_append, length_prefixed, length_be16,
    List.length_replicate, List.flatMap_cons, List.flatMap_nil]
  decide

end LedgerArweave
