import LedgerArweave.Theorems.Validation

/-!
# The pages of an item

A value is shown page by page, as many pages as the first call reports. Up to 255 pages show all of a value; the number of
pages is reported in one byte, and neither the reward nor the value of a tag is bounded by its printer.
-/

namespace LedgerArweave

open Lib

/-- What `parser_getItem` leaves for each page of an item, whatever the buffers held before. -/
def ShowsPages (P : Platform) (mem : Mem) (expert : Bool) (v : ParserTx) (idx outKeyLen outValLen : Nat)
    (pages : Nat → ItemOut) : Prop :=
  ∀ pageIdx < 256, ∃ o, (parserGetItem P mem expert v idx outKeyLen outValLen pageIdx).run o = .ok () (pages pageIdx)

/-- The bytes of as many pages as the first one reports, put end to end. -/
def bytesOfPages (outValLen : Nat) (pages : Nat → ItemOut) : List UInt8 :=
  ((List.range (pages 0).pageCount).map fun i => (pages i).val.take (outValLen - 1)).flatten

/-- As many pages as the first one reports, read as C strings and put end to end. -/
def stringOfPages (pages : Nat → ItemOut) : List UInt8 :=
  ((List.range (pages 0).pageCount).map fun i => cString (pages i).val).flatten

namespace PagingAux

variable {P : Platform} {outValLen : Nat} {text : List UInt8} {pages : Nat → ItemOut}

/-- The pages are those of one text. -/
structure PagesOf (P : Platform) (outValLen : Nat) (text : List UInt8) (pages : Nat → ItemOut) : Prop where
  val : ∀ i < 256, (pages i).val = (P.pageStringExt outValLen text i).1
  count : (pages 0).pageCount = numPages (outValLen - 1) text.length % 256

/-- The pages of an item are those of its text. -/
theorem pagesOf_item (hP : P.Formats) (hlen : 2 ≤ outValLen) {mem : Mem} {n : Nat} {f : TxFields} {v : ParserTx}
    (h : v.Holds mem n f) (htags : f.tags.length ≤ 16) {expert : Bool} {idx outKeyLen : Nat} {item : Item}
    (hi : (f.items P expert)[idx]? = some item) (htext : item.text = .ok text)
    (hpages : ShowsPages P mem expert v idx outKeyLen outValLen pages) : PagesOf P outValLen text pages := by
  have hpage : ∀ i < 256, (pages i).val = (P.pageStringExt outValLen text i).1 ∧
      (pages i).pageCount = (P.pageStringExt outValLen text i).2 := by
    intro i hi256
    obtain ⟨o, hrun⟩ := hpages i hi256
    obtain ⟨key, -, hrun'⟩ := (printsItem_parserGetItem h htags hi outKeyLen outValLen i).ok text htext o
    rw [hrun'] at hrun
    injection hrun with _ hout
    rw [← hout]
    exact ⟨rfl, rfl⟩
  refine ⟨fun i hi256 => (hpage i hi256).1, ?_⟩
  rw [(hpage 0 (by decide)).2, hP.pageCount _ _ _ hlen]

/-- `parser_getItem` prints every page of an item that has a text. -/
theorem exists_showsPages {mem : Mem} {n : Nat} {f : TxFields} {v : ParserTx} (h : v.Holds mem n f)
    (htags : f.tags.length ≤ 16) {expert : Bool} {idx : Nat} {item : Item} (hi : (f.items P expert)[idx]? = some item)
    (htext : item.text = .ok text) (outKeyLen outValLen : Nat) :
    ∃ pages, ShowsPages P mem expert v idx outKeyLen outValLen pages := by
  have hpage : ∀ pageIdx, ∃ out,
      (parserGetItem P mem expert v idx outKeyLen outValLen pageIdx).run ⟨[], [], 0⟩ = .ok () out := by
    intro pageIdx
    obtain ⟨key, -, hrun⟩ := (printsItem_parserGetItem h htags hi outKeyLen outValLen pageIdx).ok text htext ⟨[], [], 0⟩
    exact ⟨_, hrun⟩
  choose pages hpages using hpage
  exact ⟨pages, fun i _ => ⟨_, hpages i⟩⟩

theorem lt_of_count (h : PagesOf P outValLen text pages) {i : Nat} (hi : i < (pages 0).pageCount) : i < 256 := by
  have hcount := h.count
  have hmod := Nat.mod_lt (numPages (outValLen - 1) text.length) (show 256 > 0 by decide)
  omega

/-- Up to 255 pages: all of them are reported. -/
theorem count_eq (h : PagesOf P outValLen text pages) (hfew : numPages (outValLen - 1) text.length ≤ 255) :
    (pages 0).pageCount = numPages (outValLen - 1) text.length := by
  rw [h.count, Nat.mod_eq_of_lt (Nat.lt_succ_of_le hfew)]

/-- More than 255 pages: fewer are reported than the text has. -/
theorem count_lt (h : PagesOf P outValLen text pages) (hmany : ¬numPages (outValLen - 1) text.length ≤ 255) :
    (pages 0).pageCount < numPages (outValLen - 1) text.length := by
  have hcount := h.count
  have hmod := Nat.mod_lt (numPages (outValLen - 1) text.length) (show 256 > 0 by decide)
  omega

theorem length_cString_page (hP : P.Formats) (hlen : 2 ≤ outValLen) (h : PagesOf P outValLen text pages) {i : Nat}
    (hi : i < 256) : (cString (pages i).val).length ≤ outValLen - 1 := by
  obtain ⟨shown, hshown, hval⟩ := hP.pageEnd outValLen text i hlen
  rw [h.val i hi, hval, cString_append_zero, ← hshown]
  exact (List.takeWhile_sublist _).length_le

/-- Fewer blocks than the text has pages, each of a page's size at most, are not all of the text. -/
theorem length_lt (hlen : 2 ≤ outValLen) (h : PagesOf P outValLen text pages)
    (hmany : ¬numPages (outValLen - 1) text.length ≤ 255) (block : Nat → List UInt8)
    (hblock : ∀ i < 256, (block i).length ≤ outValLen - 1) :
    ((List.range (pages 0).pageCount).map block).flatten.length < text.length := by
  have hcut : (List.range (pages 0).pageCount).map block =
      (List.range (pages 0).pageCount).map fun i => (block i).take (outValLen - 1) := by
    refine List.map_congr_left fun i hi => ?_
    rw [List.take_of_length_le (hblock i (lt_of_count h (List.mem_range.1 hi)))]
  rw [hcut]
  exact length_flatten_lt (by omega) _ (fun i => List.length_take_le _ _) (count_lt h hmany)

/-- Up to 255 pages hold the text, with zeros behind it on the last one. -/
theorem bytesOfPages_eq (hP : P.Formats) (hlen : 2 ≤ outValLen) (h : PagesOf P outValLen text pages)
    (hfew : numPages (outValLen - 1) text.length ≤ 255) :
    ∃ k < outValLen - 1, bytesOfPages outValLen pages = text ++ List.replicate k 0 := by
  have hpage : ∀ i ∈ List.range (pages 0).pageCount, (pages i).val.take (outValLen - 1) =
      slice text (i * (outValLen - 1)) (outValLen - 1) ++
        List.replicate (outValLen - 1 - (slice text (i * (outValLen - 1)) (outValLen - 1)).length) 0 := by
    intro i hi
    have hslice := length_slice_le text (i * (outValLen - 1)) (outValLen - 1)
    rw [h.val i (lt_of_count h (List.mem_range.1 hi)), hP.page _ _ _ hlen hfew, List.take_append,
      List.take_of_length_le hslice, List.take_replicate, Nat.min_eq_left (by omega)]
  have hall : text.length ≤ numPages (outValLen - 1) text.length * (outValLen - 1) :=
    le_numPages_mul (by omega) text.length
  refine ⟨numPages (outValLen - 1) text.length * (outValLen - 1) - text.length, padding_lt (by omega) text.length, ?_⟩
  rw [bytesOfPages, List.map_congr_left hpage, count_eq h hfew, flatten_padded_pages (by omega) _ (Nat.le_refl _),
    List.take_of_length_le hall]

/-- Up to 255 pages, read as C strings, are the text when it has no NUL. -/
theorem stringOfPages_eq (hP : P.Formats) (hlen : 2 ≤ outValLen) (h : PagesOf P outValLen text pages)
    (hfew : numPages (outValLen - 1) text.length ≤ 255) (h0 : 0 ∉ text) : stringOfPages pages = text := by
  have hpage : ∀ i ∈ List.range (pages 0).pageCount, cString (pages i).val =
      slice text (i * (outValLen - 1)) (outValLen - 1) := by
    intro i hi
    have hslice : 0 ∉ slice text (i * (outValLen - 1)) (outValLen - 1) := fun hm =>
      h0 (List.mem_of_mem_drop (List.mem_of_mem_take hm))
    rw [h.val i (lt_of_count h (List.mem_range.1 hi)), hP.page _ _ _ hlen hfew, cString_append_replicate,
      cString_eq_self hslice]
  rw [stringOfPages, List.map_congr_left hpage, count_eq h hfew, flatten_pages,
    List.take_of_length_le (le_numPages_mul (by omega) text.length)]

theorem zero_not_mem_stringOfPages (pages : Nat → ItemOut) : 0 ∉ stringOfPages pages := by
  intro h
  obtain ⟨_, hblock, h0⟩ := List.mem_flatten.1 h
  obtain ⟨i, -, rfl⟩ := List.mem_map.1 hblock
  exact zero_not_mem_cString _ h0

end PagingAux

open PagingAux ValidationAux

/-- The pages of an item of a transaction that was parsed and validated are its text exactly when the text takes at most 255
pages; read as C strings they are, when it has no NUL either. -/
theorem pages_complete_iff (P : Platform) (hP : P.Formats) (mem : Mem) (n : Nat) (hn : n ≤ mem.length) (s s' : ParseState)
    (hparse : (parserParse mem (some 0) n).run s = .ok () s') (store : CryptoStore) (expert : Bool)
    (hvalid : parserValidate P mem store expert s'.v = .ok ()) (idx : Nat) (hidx : idx < getNumItems expert s'.v)
    (outKeyLen outValLen : Nat) (hlen : 2 ≤ outValLen) :
    ∃ item text, ((s'.v.fields mem).items P expert)[idx]? = some item ∧ item.text = .ok text ∧
      (∃ pages, ShowsPages P mem expert s'.v idx outKeyLen outValLen pages) ∧
      ∀ pages, ShowsPages P mem expert s'.v idx outKeyLen outValLen pages →
        ((∃ k < outValLen - 1, bytesOfPages outValLen pages = text ++ List.replicate k 0) ↔
          numPages (outValLen - 1) text.length ≤ 255) ∧
        (stringOfPages pages = text ↔ numPages (outValLen - 1) text.length ≤ 255 ∧ 0 ∉ text) := by
  obtain ⟨f, hf, hholds, -⟩ := parserParse_ok hn hparse
  rw [getNumItems_eq (P := P) hholds hf.tags] at hidx
  rw [hholds.fields_eq]
  have hi : (f.items P expert)[idx]? = some (f.items P expert)[idx] := List.getElem?_eq_getElem hidx
  obtain ⟨text, htext⟩ := ((parserValidate_ok_iff hholds hf).1 hvalid).2 _ (List.getElem_mem hidx)
  refine ⟨_, text, hi, htext, exists_showsPages hholds hf.tags hi htext outKeyLen outValLen, ?_⟩
  intro pages hpages
  have hof := pagesOf_item hP hlen hholds hf.tags hi htext hpages
  constructor
  · refine ⟨?_, bytesOfPages_eq hP hlen hof⟩
    rintro ⟨k, -, hbytes⟩
    by_contra hmany
    have hshort := length_lt hlen hof hmany (fun i => (pages i).val.take (outValLen - 1)) fun i _ => List.length_take_le _ _
    have hbytes' := congrArg List.length hbytes
    rw [List.length_append] at hbytes'
    rw [bytesOfPages] at hbytes'
    omega
  · constructor
    · intro hstring
      refine ⟨?_, hstring ▸ zero_not_mem_stringOfPages pages⟩
      by_contra hmany
      have hshort := length_lt hlen hof hmany (fun i => cString (pages i).val) fun i hi => length_cString_page hP hlen hof hi
      have hstring' := congrArg List.length hstring
      rw [stringOfPages] at hstring'
      omega
    · rintro ⟨hfew, h0⟩
      exact stringOfPages_eq hP hlen hof hfew h0

/-- The demo transaction and its first item, whose text takes one page. -/
theorem pages_complete_demo :
    ∃ s', (parserParse Demo.tx.message (some 0) Demo.tx.message.length).run ⟨ParserContext.zero, ParserTx.zero⟩ = .ok () s' ∧
      ∃ item text, ((s'.v.fields Demo.tx.message).items Demo.platform false)[0]? = some item ∧ item.text = .ok text ∧
        ∃ pages, ShowsPages Demo.platform Demo.tx.message false s'.v 0 40 40 pages := by
  have hf : Demo.tx.Acceptable := ⟨rfl, List.length_replicate, by decide⟩
  obtain ⟨s', hrun, hfields⟩ := parse_demo hf (by rw [length_message_demo hf rfl]; decide)
  have hvalid : parserValidate Demo.platform Demo.tx.message Demo.store false s'.v = .ok () := by
    rw [validate_iff (Nat.le_refl _) hrun, hfields]
    exact ⟨shownNormally_demo rfl digits_demo (by decide) (by decide), fun hx => absurd hx (by decide)⟩
  have hidx : 0 < getNumItems false s'.v := show 0 < constNumUiItems by decide
  obtain ⟨item, text, hi, htext, hex, -⟩ := pages_complete_iff Demo.platform Demo.platform_formats _ _ (Nat.le_refl _) _ s' hrun
    Demo.store false hvalid 0 hidx 40 40 (by decide)
  exact ⟨s', hrun, item, text, hi, htext, hex⟩

/-- A transaction whose reward is 9984 digits: in pages of 39 bytes it takes 256 pages, and none is reported. -/
theorem not_pages_complete :
    let f := { Demo.tx with reward := List.replicate 9984 49 }
    f.message.length ≤ 16384 ∧ ∃ s' pages,
      (parserParse f.message (some 0) f.message.length).run ⟨ParserContext.zero, ParserTx.zero⟩ = .ok () s' ∧
      parserValidate Demo.platform f.message Demo.store false s'.v = .ok () ∧
      (f.items Demo.platform false)[2]? = some ⟨ascii "Reward", .ok f.reward⟩ ∧
      ShowsPages Demo.platform f.message false s'.v 2 40 40 pages ∧ bytesOfPages 40 pages = [] := by
  intro f
  have hf : f.Acceptable := ⟨rfl, List.length_replicate, by decide⟩
  have hreward : f.reward.length = 9984 := List.length_replicate
  have hlen : f.message.length ≤ 16384 := by
    rw [length_message_demo hf rfl, hreward]
    decide
  have hmod : f.message.length % 65536 = f.message.length := Nat.mod_eq_of_lt (Nat.lt_of_le_of_lt hlen (by decide))
  obtain ⟨s', hrun, hholds⟩ := parserParse_of_message (Nat.le_refl f.message.length) hf (t := [])
    (by rw [hmod, List.take_length, List.append_nil]) ⟨ParserContext.zero, ParserTx.zero⟩
  have hi : (f.items Demo.platform false)[2]? = some ⟨ascii "Reward", .ok f.reward⟩ := rfl
  obtain ⟨pages, hpages⟩ := exists_showsPages hholds hf.tags hi rfl 40 40
  have hof := pagesOf_item Demo.platform_formats (by decide) hholds hf.tags hi rfl hpages
  refine ⟨hlen, s', pages, hrun, ?_, hi, hpages, ?_⟩
  · rw [validate_iff (Nat.le_refl _) hrun, hholds.fields_eq]
    exact ⟨shownNormally_demo rfl digits_demo (by decide) (by decide), fun hx => absurd hx (by decide)⟩
  · have hnone : (pages 0).pageCount = 0 := by
      rw [hof.count, hreward]
      decide
    rw [bytesOfPages, hnone]
    rfl

end LedgerArweave
