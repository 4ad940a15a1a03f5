import LedgerArweave.HostBuild
import LedgerArweave.Theorems.Digest
import LedgerArweave.Theorems.Paging
import LedgerArweave.Theorems.Sha512

/-!
# The app without a device

Three statements about what is compiled when no device is the target. The digest of a transaction is its deep hash under the
SHA-384 of the standard. The fuzz target returns whatever it is given: what `parser_validate` accepted can be shown page by page,
and no count of pages keeps a loop from ending. And `dumpUI` writes a line for every page of every item.
-/

namespace LedgerArweave

open Lib

/-- The SHA-384 digest of the standard. -/
noncomputable def standardSha384 (x : List UInt8) : ByteArr 48 := ⟨Sha384.digest x, Sha384.length_digest x⟩

/-- The text of an item, nothing when its printer fails. -/
def Item.value (item : Item) : List UInt8 := item.text.toOption.getD []

/-- The number of pages that is reported of an item, in one byte. -/
def Item.pageCount (outValLen : Nat) (item : Item) : Nat := numPages (outValLen - 1) item.value.length % 256

/-- The line of a page of an item. -/
def itemLine (maxKeyLen maxValueLen idx : Nat) (item : Item) (page : Nat) : List UInt8 :=
  let count := numPages (maxValueLen - 1) item.value.length
  decimal idx ++ ascii " | " ++ item.title.take (maxKeyLen - 1) ++
    (if count > 1 then ascii " [" ++ decimal (page + 1) ++ ascii "/" ++ decimal count ++ ascii "]" else []) ++
    ascii " : " ++ cString (slice item.value (page * (maxValueLen - 1)) (maxValueLen - 1))

/-- The lines of an item: one for each page of its text, and one when the text has no page. -/
def itemLines (maxKeyLen maxValueLen idx : Nat) (item : Item) : List (List UInt8) :=
  (List.range (max 1 (numPages (maxValueLen - 1) item.value.length))).map (itemLine maxKeyLen maxValueLen idx item)

namespace HostBuildAux

/-! ## The digest -/

/-- The hash function of the tests is that of the standard, for texts of less than 2^32 bytes. -/
theorem sha384_eq {x : List UInt8} (h : x.length < 2 ^ 32) : HostBuild.sha384 x = .ok (standardSha384 x) := by
  obtain ⟨out, hrun, hout⟩ := Sha512.sha384_eq (Nat.le_refl x.length) (by omega)
  have hcall : HostBuild.cryptoSha384 x x.length = some (standardSha384 x) := by
    rw [HostBuild.cryptoSha384, hrun]
    refine congrArg some (Subtype.ext ?_)
    rw [List.take_length] at hout
    exact hout
  rw [HostBuild.sha384, Nat.mod_eq_of_lt h, hcall]

section

variable {g g' : Sha384} (hg : ∀ x, x.length < 65536 → g x = g' x)

include hg

/-- Hash functions that agree on short texts give a tag the same hash. -/
theorem hashTag_congr (tagName : String) (tagNumber : Nat) : hashTag g tagName tagNumber = hashTag g' tagName tagNumber := by
  have hlen : (snprintf 50 (ascii tagName ++ decimal tagNumber)).length ≤ 49 :=
    (List.takeWhile_sublist _).length_le.trans (List.length_take_le _ _)
  rw [hashTag, hashTag, hg _ (by omega)]

/-- And a blob that is short. -/
theorem hashBlob_congr {data : List UInt8} (h : data.length < 65536) (dataLen : Nat) :
    hashBlob g data dataLen = hashBlob g' data dataLen := by
  have hpair : ∀ a b : ByteArr 48, g (a.1 ++ b.1) = g' (a.1 ++ b.1) := fun a b =>
    hg _ (by rw [List.length_append, a.2, b.2]; decide)
  simp only [hashBlob, hashTag_congr hg, hg data h, hpair]

/-- And two hashes together. -/
theorem hashAccumulate_congr (dh : DeepHashPair) : hashAccumulate g dh = hashAccumulate g' dh := by
  rw [hashAccumulate, hashAccumulate, DeepHashPair.pair, hg _ (by rw [List.length_append, dh.acc.2, dh.hash.2]; decide)]

variable {mem : Mem} {n : Nat} (hn : n < 65536)

include hn

/-- And a field of the transaction. -/
theorem hashChunk_congr {e : ParserElement} {b : List UInt8} (he : Shows mem n e b) (dh : DeepHashPair) :
    hashChunkWithAccumulator g mem dh e = hashChunkWithAccumulator g' mem dh e := by
  obtain ⟨p, -, hfits, -⟩ := he.view
  simp only [hashChunkWithAccumulator, he.bytes, hashBlob_congr hg (show b.length < 65536 by omega), hashAccumulate_congr hg]

/-- And the list of the tags, by induction on it. -/
theorem accumulateTags_congr {v : ParserTx} :
    ∀ (ts : List (List UInt8 × List UInt8)) (i : Nat) (ctx : DeepHashPair),
      (∀ k t, ts[k]? = some t → Shows mem n (v.tag (i + k)).key t.1 ∧ Shows mem n (v.tag (i + k)).value t.2) →
      accumulateTagDigests g mem v ts.length i ctx = accumulateTagDigests g' mem v ts.length i ctx := by
  intro ts
  induction ts with
  | nil =>
    intro i ctx _
    rfl
  | cons t ts ih =>
    intro i ctx hts
    obtain ⟨hk, hw⟩ := hts 0 t rfl
    rw [Nat.add_zero] at hk hw
    have htag : parserGetTagDigest g mem (v.tag i) = parserGetTagDigest g' mem (v.tag i) := by
      simp only [parserGetTagDigest, hashTag_congr hg, hashChunk_congr hg hn hk, hashChunk_congr hg hn hw]
    have hrest := fun ctx => ih (i + 1) ctx fun k t' hk' => by
      have := hts (k + 1) t' hk'
      rwa [Nat.add_comm k 1, ← Nat.add_assoc] at this
    simp only [List.length_cons, accumulateTagDigests, htag, hashAccumulate_congr hg, hrest]

/-- The digest hashes no more than 65535 bytes at a time. -/
theorem parserGetDigest_congr_hash {v : ParserTx} {f : TxFields} (hv : v.Holds mem n f) (digestLen : Nat) :
    parserGetDigest g mem v digestLen = parserGetDigest g' mem v digestLen := by
  have htags : ∀ ctx, accumulateTagDigests g mem v v.tagsCount 0 ctx = accumulateTagDigests g' mem v v.tagsCount 0 ctx := by
    intro ctx
    rw [hv.count]
    exact accumulateTags_congr hg hn f.tags 0 ctx (by simpa only [Nat.zero_add] using hv.tags)
  simp only [parserGetDigest, parserApplyDigestTags, hashTag_congr hg, htags, hashAccumulate_congr hg,
    hashChunk_congr hg hn hv.format, hashChunk_congr hg hn hv.owner, hashChunk_congr hg hn hv.target,
    hashChunk_congr hg hn hv.quantity, hashChunk_congr hg hn hv.reward, hashChunk_congr hg hn hv.lastTx,
    hashChunk_congr hg hn hv.dataSize, hashChunk_congr hg hn hv.dataRoot]

end

/-! ## The loops over the pages -/

section

variable {α : Type}

/-- From a page on, the loop goes over the pages that are left. The induction is on the fuel. -/
theorem forPages_from {page : Nat → ItemOut → Option (α × ItemOut)} {shown : Nat → α} {count : Nat} (hcount : count ≤ 255)
    (hpage : ∀ i < 256, ∀ o, ∃ o', page i o = some (shown i, o') ∧ o'.pageCount = count) :
    ∀ (fuel i : Nat) (o : ItemOut), o.pageCount = count → count - i < fuel →
      ∃ o', HostBuild.forPages page fuel i o = some ((List.range' i (count - i)).map shown, o') := by
  intro fuel
  induction fuel with
  | zero => omega
  | succ fuel ih =>
    intro i o ho hfuel
    by_cases hi : i < count
    · obtain ⟨o₁, hrun, ho₁⟩ := hpage i (by omega) o
      obtain ⟨o', hrest⟩ := ih (i + 1) o₁ ho₁ (by omega)
      obtain ⟨left, hleft⟩ : ∃ left, count - i = left + 1 := ⟨count - i - 1, by omega⟩
      rw [show count - (i + 1) = left by omega] at hrest
      refine ⟨o', ?_⟩
      rw [HostBuild.forPages, if_pos (ho ▸ hi), hrun, Nat.mod_eq_of_lt (by omega), hleft, List.range'_succ, List.map_cons]
      simp only [Option.bind_eq_bind, Option.bind_some, hrest]
      rfl
    · refine ⟨o, ?_⟩
      rw [HostBuild.forPages, if_neg (ho ▸ hi), Nat.sub_eq_zero_of_le (Nat.le_of_not_lt hi)]
      rfl

/-- The loop shows the first page, which tells the number of pages, and then the others. -/
theorem forPages_eq {page : Nat → ItemOut → Option (α × ItemOut)} {shown : Nat → α} {count : Nat} (hcount : count ≤ 255)
    (hpage : ∀ i < 256, ∀ o, ∃ o', page i o = some (shown i, o') ∧ o'.pageCount = count) (o : ItemOut) :
    ∃ o', HostBuild.forPages page 257 0 { o with pageCount := 1 } = some ((List.range (max 1 count)).map shown, o') := by
  obtain ⟨o₁, hrun, ho₁⟩ := hpage 0 (by decide) { o with pageCount := 1 }
  obtain ⟨o', hrest⟩ := forPages_from hcount hpage 256 1 o₁ ho₁ (by omega)
  refine ⟨o', ?_⟩
  have hrange : List.range (max 1 count) = 0 :: List.range' 1 (count - 1) := by
    rw [List.range_eq_range', show max 1 count = count - 1 + 1 by omega, List.range'_succ]
  rw [HostBuild.forPages, if_pos Nat.zero_lt_one, hrun, hrange, List.map_cons]
  simp only [Option.bind_eq_bind, Option.bind_some, Nat.zero_add, Nat.one_mod, hrest]
  rfl

/-- The loop over the items puts the pages of all of them in a row. -/
theorem forItems_eq {β : Type} {page : Nat → Nat → ItemOut → Option (α × ItemOut)} (shown : β → Nat → List α) :
    ∀ (items : List β) (idx : Nat), (∀ k item, items[k]? = some item → ∀ o : ItemOut,
        ∃ o', HostBuild.forPages (page (idx + k)) 257 0 { o with pageCount := 1 } = some (shown item (idx + k), o')) →
      ∀ o, ∃ o', HostBuild.forItems page items.length idx o =
        some ((items.zipIdx idx).flatMap fun x => shown x.1 x.2, o') := by
  intro items
  induction items with
  | nil =>
    intro idx _ o
    exact ⟨o, rfl⟩
  | cons item items ih =>
    intro idx h o
    obtain ⟨o₁, hrun⟩ := h 0 item rfl o
    rw [Nat.add_zero] at hrun
    obtain ⟨o', hrest⟩ := ih (idx + 1) (fun k item hk o => by
      have := h (k + 1) item hk o
      rwa [Nat.add_comm k 1, ← Nat.add_assoc] at this) o₁
    refine ⟨o', ?_⟩
    rw [List.length_cons, HostBuild.forItems, hrun]
    simp only [Option.bind_eq_bind, Option.bind_some, hrest, List.zipIdx_cons, List.flatMap_cons]
    rfl

end

/-! ## What validation promises -/

/-- The text of an item that can be shown. -/
theorem text_eq_value {item : Item} (h : item.Shown) : item.text = .ok item.value := by
  obtain ⟨t, ht⟩ := h
  rw [Item.value, ht]
  rfl

section

variable {P : Platform} {mem : Mem} {n : Nat} {f : TxFields} {v : ParserTx} {expert : Bool}

/-- Without an owner to compare, `parser_validate` accepts the transactions whose items all have a text. -/
theorem validate_ok_iff (h : v.Holds mem n f) (hf : f.Acceptable) :
    HostBuild.parserValidate P mem expert v = .ok () ↔ ∀ item ∈ f.items P expert, item.Shown := by
  rw [← validateItems_ok_iff h hf.tags (f.items P expert) []
    ⟨List.replicate tmpLen 0, List.replicate tmpLen 0, 0⟩ rfl, ← getNumItems_eq h hf.tags, List.length_nil]
  unfold HostBuild.parserValidate HostBuild.validateTx
  simp only [bind, Except.bind]
  split
  · rename_i o' hrun
    exact iff_of_true rfl ⟨o', hrun⟩
  · rename_i e o' hrun
    refine iff_of_false (fun h => by cases h) ?_
    rintro ⟨_, hok⟩
    rw [hrun] at hok
    cases hok

/-- The items whose pages all get printed, by a body that yields something for a page that `parser_getItem` prints. -/
theorem forItems_of_shown (hP : P.Formats) (h : v.Holds mem n f) (htags : f.tags.length ≤ 16)
    (hshown : ∀ item ∈ f.items P expert, item.Shown) {α : Type} {page : Nat → Nat → ItemOut → Option (α × ItemOut)}
    (shown : Item → Nat → Nat → α) {outKeyLen outValLen : Nat} (hlen : 2 ≤ outValLen)
    (hpage : ∀ item ∈ f.items P expert, ∀ idx pageIdx key o, cString key = item.title.take (outKeyLen - 1) →
      (parserGetItem P mem expert v idx outKeyLen outValLen pageIdx).run o =
        .ok () ⟨key, (P.pageStringExt outValLen item.value pageIdx).1, item.pageCount outValLen⟩ →
      ∃ val, page idx pageIdx o = some (shown item idx pageIdx, ⟨key, val, item.pageCount outValLen⟩)) (o : ItemOut) :
    ∃ o', HostBuild.forItems page (getNumItems expert v) 0 o = some ((f.items P expert).zipIdx.flatMap fun x =>
      (List.range (max 1 (x.1.pageCount outValLen))).map (shown x.1 x.2), o') := by
  rw [getNumItems_eq (P := P) h htags]
  refine forItems_eq (fun item idx => (List.range (max 1 (item.pageCount outValLen))).map (shown item idx)) _ 0
    (fun idx item hi o => ?_) o
  rw [Nat.zero_add]
  have hmem := List.mem_of_getElem? hi
  refine forPages_eq (Nat.le_of_lt_succ (Nat.mod_lt _ (by decide))) (fun pageIdx _ o => ?_) o
  obtain ⟨key, hkey, hrun⟩ := (printsItem_parserGetItem h htags hi outKeyLen outValLen pageIdx).ok item.value
    (text_eq_value (hshown item hmem)) o
  rw [hP.pageCount _ _ _ hlen] at hrun
  obtain ⟨val, hval⟩ := hpage item hmem idx pageIdx key o hkey hrun
  exact ⟨_, hval, rfl⟩

end

end HostBuildAux

open HostBuildAux

/-- After every `parser_parse` that succeeds, of any buffer and from any state, the digest is computed without a fault, and it is
the deep hash of the content of the transaction under the SHA-384 of the standard. -/
theorem host_digest_eq_standard (mem : Mem) (n : Nat) (hn : n ≤ mem.length) (s s' : ParseState)
    (h : (parserParse mem (some 0) n).run s = .ok () s') (digestLen : Nat) (hd : sha384DigestLen ≤ digestLen) :
    parserGetDigest HostBuild.sha384 mem s'.v digestLen =
      .ok ((deepHash standardSha384 (s'.v.fields mem).tree).1 ++ List.replicate (digestLen - sha384DigestLen) 0) := by
  obtain ⟨f, hf, hholds, -⟩ := parserParse_ok hn h
  have hsmall : n % 65536 < 65536 := Nat.mod_lt _ (by decide)
  have hhash : ∀ x, x.length < 65536 → HostBuild.sha384 x = totalSha384 standardSha384 x := fun x hx => sha384_eq (by omega)
  rw [hholds.fields_eq, parserGetDigest_congr_hash hhash hsmall hholds,
    parserGetDigest_of_holds standardSha384 hsmall hholds hf.tags hd]

/-- The demo transaction. -/
theorem host_digest_eq_standard_demo :
    ∃ s', (parserParse Demo.tx.message (some 0) Demo.tx.message.length).run ⟨ParserContext.zero, ParserTx.zero⟩ = .ok () s' ∧
      parserGetDigest HostBuild.sha384 Demo.tx.message s'.v 48 = .ok ((deepHash standardSha384 Demo.tx.tree).1 ++ []) := by
  have hf : Demo.tx.Acceptable := ⟨rfl, List.length_replicate, by decide⟩
  obtain ⟨s', hrun, hfields⟩ := ValidationAux.parse_demo hf (by rw [ValidationAux.length_message_demo hf rfl]; decide)
  have hdigest := host_digest_eq_standard _ _ (Nat.le_refl _) _ s' hrun 48 (by decide)
  rw [hfields] at hdigest
  exact ⟨s', hrun, hdigest⟩

/-- Whatever bytes the fuzz target is given, in whatever state and mode: no assertion of it fails, and its loops end. -/
theorem fuzz_target_returns (P : Platform) (hP : P.Formats) (mem : Mem) (size : Nat) (hsize : size ≤ mem.length) (expert : Bool)
    (s : ParseState) (o : ItemOut) : HostBuild.llvmFuzzerTestOneInput P mem expert size s o = some 0 := by
  unfold HostBuild.llvmFuzzerTestOneInput
  split
  · rfl
  rename_i s' hparse
  obtain ⟨f, hf, hholds, -⟩ := parserParse_ok hsize hparse
  split
  · rfl
  rename_i hvalid
  have hshown := (validate_ok_iff hholds hf).1 hvalid
  have hpage : ∀ item ∈ f.items P expert, ∀ idx pageIdx key o,
      cString key = item.title.take (HostBuild.fuzzBufferLen - 1) →
      (parserGetItem P mem expert s'.v idx HostBuild.fuzzBufferLen HostBuild.fuzzBufferLen pageIdx).run o =
        .ok () ⟨key, (P.pageStringExt HostBuild.fuzzBufferLen item.value pageIdx).1, item.pageCount HostBuild.fuzzBufferLen⟩ →
      ∃ val, HostBuild.fuzzPage P mem expert s'.v idx pageIdx o =
        some ((), ⟨key, val, item.pageCount HostBuild.fuzzBufferLen⟩) := by
    intro item _ idx pageIdx key o _ hrun
    refine ⟨(P.pageStringExt HostBuild.fuzzBufferLen item.value pageIdx).1, ?_⟩
    rw [HostBuild.fuzzPage, hrun]
  obtain ⟨o', hrun⟩ := forItems_of_shown hP hholds hf.tags hshown (fun _ _ _ => ()) (by decide) hpage o
  rw [hrun]
  rfl

/-- The demo transaction in expert mode. -/
theorem fuzz_target_returns_demo :
    HostBuild.llvmFuzzerTestOneInput Demo.platform Demo.tx.message true Demo.tx.message.length
      ⟨ParserContext.zero, ParserTx.zero⟩ ⟨[], [], 0⟩ = some 0 :=
  fuzz_target_returns Demo.platform Demo.platform_formats _ _ (Nat.le_refl _) _ _ _

/-- Of a transaction that was parsed and validated, `dumpUI` writes the lines of its items, when the lengths it is given fit its
buffers and each text takes at most 255 pages. -/
theorem dumpUI_eq_itemLines (P : Platform) (hP : P.Formats) (mem : Mem) (n : Nat) (hn : n ≤ mem.length) (s s' : ParseState)
    (hparse : (parserParse mem (some 0) n).run s = .ok () s') (expert : Bool)
    (hvalid : HostBuild.parserValidate P mem expert s'.v = .ok ()) (maxKeyLen maxValueLen : Nat)
    (hkey : 1 ≤ maxKeyLen ∧ maxKeyLen ≤ 1000) (hlen : 2 ≤ maxValueLen) (hbuffer : maxValueLen ≤ 1000)
    (hfew : ∀ item ∈ (s'.v.fields mem).items P expert, numPages (maxValueLen - 1) item.value.length ≤ 255) (o : ItemOut) :
    HostBuild.dumpUI P mem expert s'.v maxKeyLen maxValueLen o =
      some (((s'.v.fields mem).items P expert).zipIdx.flatMap fun x => itemLines maxKeyLen maxValueLen x.2 x.1) := by
  obtain ⟨f, hf, hholds, -⟩ := parserParse_ok hn hparse
  have hshown := (validate_ok_iff hholds hf).1 hvalid
  rw [hholds.fields_eq] at hfew ⊢
  have hcount : ∀ item ∈ f.items P expert, item.pageCount maxValueLen = numPages (maxValueLen - 1) item.value.length :=
    fun item hitem => Nat.mod_eq_of_lt (Nat.lt_succ_of_le (hfew item hitem))
  have hpage : ∀ item ∈ f.items P expert, ∀ idx pageIdx key o, cString key = item.title.take (maxKeyLen - 1) →
      (parserGetItem P mem expert s'.v idx maxKeyLen maxValueLen pageIdx).run o =
        .ok () ⟨key, (P.pageStringExt maxValueLen item.value pageIdx).1, item.pageCount maxValueLen⟩ →
      ∃ val, HostBuild.dumpPage P mem expert s'.v maxKeyLen maxValueLen idx pageIdx o =
        some (itemLine maxKeyLen maxValueLen idx item pageIdx, ⟨key, val, item.pageCount maxValueLen⟩) := by
    intro item hitem idx pageIdx key o hkey hrun
    have hval := hP.page maxValueLen item.value pageIdx hlen (hfew item hitem)
    refine ⟨(P.pageStringExt maxValueLen item.value pageIdx).1, ?_⟩
    rw [HostBuild.dumpPage, hrun]
    simp only [HostBuild.dumpLine, itemLine, hkey, hcount item hitem, hval, cString_append_replicate]
  obtain ⟨o', hrun⟩ := forItems_of_shown hP hholds hf.tags hshown (fun item idx => itemLine maxKeyLen maxValueLen idx item)
    hlen hpage o
  have hfits : ¬(maxKeyLen = 0 ∨ maxKeyLen > HostBuild.dumpBufferLen ∨ maxValueLen > HostBuild.dumpBufferLen) := by
    rw [HostBuild.dumpBufferLen]
    omega
  rw [HostBuild.dumpUI, if_neg hfits, hrun, Option.map_some]
  refine congrArg some (List.flatMap_congr fun x hx => ?_)
  rw [hcount x.1 (List.fst_mem_of_mem_zipIdx hx), itemLines]

/-- The lines of the demo transaction in normal mode. -/
theorem dumpUI_eq_itemLines_demo :
    ∃ s', (parserParse Demo.tx.message (some 0) Demo.tx.message.length).run ⟨ParserContext.zero, ParserTx.zero⟩ = .ok () s' ∧
      HostBuild.dumpUI Demo.platform Demo.tx.message false s'.v 40 40 ⟨[], [], 0⟩ =
        some [ascii "0 | Target : AQI", ascii "1 | Quantity : AR 0.00000000001", ascii "2 | Reward : 3",
          ascii "3 | Last tx : BQ"] := by
  have hf : Demo.tx.Acceptable := ⟨rfl, List.length_replicate, by decide⟩
  obtain ⟨s', hrun, hfields⟩ := ValidationAux.parse_demo hf (by rw [ValidationAux.length_message_demo hf rfl]; decide)
  obtain ⟨f, hf', hholds, -⟩ := parserParse_ok (Nat.le_refl _) hrun
  obtain rfl : f = Demo.tx := hholds.fields_eq.symm.trans hfields
  have hshown : ∀ item ∈ Demo.tx.items Demo.platform false, item.Shown := by
    have hvalid : parserValidate Demo.platform Demo.tx.message Demo.store false s'.v = .ok () := by
      rw [ValidationAux.validate_iff (Nat.le_refl _) hrun, hfields]
      exact ⟨ValidationAux.shownNormally_demo rfl ValidationAux.digits_demo (by decide) (by decide),
        fun hx => absurd hx (by decide)⟩
    exact ((LedgerArweave.parserValidate_ok_iff hholds hf').1 hvalid).2
  have hlines := dumpUI_eq_itemLines Demo.platform Demo.platform_formats _ _ (Nat.le_refl _) _ s' hrun false
    ((validate_ok_iff hholds hf').2 hshown) 40 40 (by decide) (by decide) (by decide) (by rw [hfields]; decide +kernel) ⟨[], [], 0⟩
  rw [hfields] at hlines
  refine ⟨s', hrun, hlines.trans (congrArg some ?_)⟩
  decide +kernel

end LedgerArweave
