import LedgerArweave.Parser.Items
import LedgerArweave.Tx
import LedgerArweave.Theorems.Validation

/-!
# The order of the items

`_getNumItems` and `parser_getItem` lay out the review independently of each other. Both follow one list of fields: the four of
the normal mode, then the data size, the data root if there is one, and the tags in order. An index behind the list is refused,
and the item of a tag shows bytes of that tag only.
-/

namespace LedgerArweave

open Lib

/-- A page of a text: a piece of it that leaves room for a terminator, and zeros behind it. -/
structure Platform.Pages (P : Platform) : Prop where
  page : ∀ outValLen text pageIdx, 2 ≤ outValLen → ∃ o m, m ≤ outValLen - 1 ∧
    (P.pageStringExt outValLen text pageIdx).1 =
      slice text o m ++ List.replicate (outValLen - (slice text o m).length) 0

theorem Demo.platform_pages : Demo.platform.Pages where
  page outValLen _ pageIdx _ := ⟨pageIdx * (outValLen - 1), outValLen - 1, Nat.le_refl _, rfl⟩

/-- The buffers show bytes of a tag only: a start of its key that leaves room for a terminator, and a piece of its value, with
zeros behind both. -/
def ItemOut.ShowsTag (out : ItemOut) (t : List UInt8 × List UInt8) (outKeyLen outValLen : Nat) : Prop :=
  (∃ m ≤ min t.1.length (outKeyLen - 1), out.key = t.1.take m ++ List.replicate (outKeyLen - m) 0) ∧
    ∃ o m, m ≤ outValLen - 1 ∧ out.val = slice t.2 o m ++ List.replicate (outValLen - (slice t.2 o m).length) 0

namespace LayoutAux

variable {P : Platform} {mem : Mem} {n : Nat} {f : TxFields} {v : ParserTx} {expert : Bool}

/-- No field is shown twice. -/
theorem nodup_layout : (f.layout expert).Nodup := by
  have htags : ((List.range f.tags.length).map ItemField.tag).Nodup :=
    List.nodup_range.map fun i j h => ItemField.tag.inj h
  unfold TxFields.layout
  cases expert with
  | false => simp
  | true => by_cases hr : f.dataRoot = [] <;> simp [hr, htags]

/-! ## Indexes behind the list -/

/-- An index behind the items is refused. -/
theorem run_parserGetItem_out {idx : Nat} (hidx : idx ≥ getNumItems expert v) (outKeyLen outValLen pageIdx : Nat) (o : ItemOut) :
    (parserGetItem P mem expert v idx outKeyLen outValLen pageIdx).run o =
      .error .noData { preparedFor idx outKeyLen outValLen with pageCount := 0 } := by
  unfold parserGetItem
  simp only [if_pos hidx]
  rfl

/-- `tx_getItem` refuses every index that is not one of the items, also the one behind the last that it lets through. -/
theorem run_txGetItem_out {displayIdx : Int8} (hidx : displayIdx.toInt < 0 ∨ getNumItems expert v ≤ displayIdx.toInt)
    (outKeyLen outValLen pageIdx : Nat) (o : ItemOut) :
    ∃ o', (txGetItem P mem expert v displayIdx outKeyLen outValLen pageIdx).run o = .error .noData o' := by
  unfold txGetItem txGetNumItems
  by_cases hrange : displayIdx.toInt < 0 ∨ displayIdx.toInt > getNumItems expert v
  · exact ⟨o, by simp only [if_pos hrange]; rfl⟩
  · have hlast : displayIdx.toInt.toNat ≥ getNumItems expert v := by omega
    have hrun : (parserGetItem P mem expert v displayIdx.toInt.toNat outKeyLen outValLen pageIdx).run o =
        .error .noData { preparedFor displayIdx.toInt.toNat outKeyLen outValLen with pageCount := 0 } :=
      run_parserGetItem_out hlast outKeyLen outValLen pageIdx o
    refine ⟨{ preparedFor displayIdx.toInt.toNat outKeyLen outValLen with pageCount := 0 }, ?_⟩
    simp only [if_neg hrange]
    rw [run_bind_of_ok (by rw [run_attempt, hrun])]
    rfl

/-- `tx_getItem` on one of the items is `parser_getItem`. -/
theorem run_txGetItem_of_ok {displayIdx : Int8} (hidx : 0 ≤ displayIdx.toInt ∧ displayIdx.toInt < getNumItems expert v)
    {outKeyLen outValLen pageIdx : Nat} {o o' : ItemOut}
    (hrun : (parserGetItem P mem expert v displayIdx.toInt.toNat outKeyLen outValLen pageIdx).run o = .ok () o') :
    (txGetItem P mem expert v displayIdx outKeyLen outValLen pageIdx).run o = .ok () o' := by
  have hrange : ¬(displayIdx.toInt < 0 ∨ displayIdx.toInt > getNumItems expert v) := by omega
  unfold txGetItem txGetNumItems
  simp only [if_neg hrange]
  rw [run_bind_of_ok (by rw [run_attempt, hrun])]
  rfl

/-! ## The item of a tag -/

/-- A text in a buffer that was cleared. -/
theorem snprintfInto_replicate {size k : Nat} (h0 : 0 < size) (hk : size ≤ k) (text : List UInt8) :
    snprintfInto (List.replicate k 0) size text =
      text.take (size - 1) ++ List.replicate (k - (text.take (size - 1)).length) 0 := by
  have hlen : (text.take (size - 1)).length < k := by
    rw [List.length_take]
    omega
  rw [snprintfInto, if_neg (by omega), patch, List.take_zero, List.nil_append, List.length_append, List.length_singleton,
    List.drop_replicate, List.append_assoc, List.singleton_append, ← List.replicate_succ]
  congr 2
  omega

/-- The item of a tag shows bytes of that tag only. -/
theorem run_parserPrintTag (hP : P.Pages) {g : ParserTag} {t : List UInt8 × List UInt8} (hk : Shows mem n g.key t.1)
    (hw : Shows mem n g.value t.2) {outKeyLen outValLen : Nat} (hkl : 1 ≤ outKeyLen) (hvl : 2 ≤ outValLen) (pageIdx : Nat)
    (o : ItemOut) :
    ∃ out, (parserPrintTag P mem g outKeyLen outValLen pageIdx).run o = .ok () out ∧ out.ShowsTag t outKeyLen outValLen := by
  obtain ⟨p, hp, -, hs⟩ := hk.view
  generalize hmax : (if outKeyLen ≥ g.key.len + 1 then g.key.len + 1 else outKeyLen) = maxKeyLen
  have hmin : maxKeyLen - 1 = min g.key.len (outKeyLen - 1) := by
    rw [← hmax]
    split <;> omega
  have hfits : 0 < maxKeyLen ∧ maxKeyLen ≤ outKeyLen := by
    rw [← hmax]
    split <;> omega
  -- what snprintf takes of the memory behind the pointer is a start of the key
  have hcut : (cString (mem.drop p)).take (maxKeyLen - 1) = (cString t.1).take (outKeyLen - 1) := by
    rw [hmin, Nat.min_comm, ← List.take_take, ← cString_take (mem.drop p) g.key.len, hk.len]
    exact congrArg (fun l => (cString l).take (outKeyLen - 1)) hs
  obtain ⟨m, hm, htake⟩ : ∃ m ≤ min t.1.length (outKeyLen - 1), (cString t.1).take (outKeyLen - 1) = t.1.take m := by
    have hpre : (cString t.1).take (outKeyLen - 1) <+: t.1 := (List.take_prefix _ _).trans (List.takeWhile_prefix _)
    refine ⟨((cString t.1).take (outKeyLen - 1)).length, ?_, List.prefix_iff_eq_take.1 hpre⟩
    exact Nat.le_min.2 ⟨hpre.length_le, List.length_take_le _ _⟩
  have hlen : (t.1.take m).length = m := List.length_take_of_le (by omega)
  refine ⟨_, by rw [parserPrintTag, hw.bytes, hp, Option.getD_some, hmax]; rfl, ⟨m, hm, ?_⟩, ?_⟩
  · show snprintfInto (List.replicate outKeyLen 0) maxKeyLen (cString (mem.drop p)) = _
    rw [snprintfInto_replicate hfits.1 hfits.2, hcut, htake, hlen]
  · exact hP.page outValLen t.2 pageIdx hvl

end LayoutAux

open LayoutAux ValidationAux

/-- Every field is shown once and in order, from its own bytes. For every transaction that `parser_parse` accepts, in both modes:
the order of the review has as many fields as there are items, no field twice, and the tags of the transaction and no others; the
item of an index is printed by the printer of the field there from the element of that field, and shows the text of that field;
every index behind the items is refused, also by `tx_getItem`, which otherwise answers what `parser_getItem` does; and the item of
a tag shows bytes of that tag only. -/
theorem items_follow_layout (P : Platform) (hP : P.Pages) (mem : Mem) (n : Nat) (hn : n ≤ mem.length) (s s' : ParseState)
    (hparse : (parserParse mem (some 0) n).run s = .ok () s') (expert : Bool) :
    let v := s'.v
    let f := v.fields mem
    (f.layout expert).length = getNumItems expert v ∧ (f.layout expert).Nodup ∧
    (∀ k, .tag k ∈ f.layout expert ↔ expert = true ∧ k < v.tagsCount) ∧
    (∀ idx field, (f.layout expert)[idx]? = some field → ∀ outKeyLen outValLen pageIdx o,
      (parserGetItem P mem expert v idx outKeyLen outValLen pageIdx).run o =
        (field.printer P mem v outKeyLen outValLen pageIdx).run (preparedFor idx outKeyLen outValLen) ∧
      PrintsItem P (parserGetItem P mem expert v idx outKeyLen outValLen pageIdx) outKeyLen outValLen pageIdx
        (field.item P f)) ∧
    (∀ idx ≥ getNumItems expert v, ∀ outKeyLen outValLen pageIdx o,
      ∃ o', (parserGetItem P mem expert v idx outKeyLen outValLen pageIdx).run o = .error .noData o') ∧
    (∀ displayIdx : Int8, displayIdx.toInt < 0 ∨ getNumItems expert v ≤ displayIdx.toInt → ∀ outKeyLen outValLen pageIdx o,
      ∃ o', (txGetItem P mem expert v displayIdx outKeyLen outValLen pageIdx).run o = .error .noData o') ∧
    (∀ displayIdx : Int8, 0 ≤ displayIdx.toInt ∧ displayIdx.toInt < getNumItems expert v → ∀ outKeyLen outValLen pageIdx o o',
      (parserGetItem P mem expert v displayIdx.toInt.toNat outKeyLen outValLen pageIdx).run o = .ok () o' →
      (txGetItem P mem expert v displayIdx outKeyLen outValLen pageIdx).run o = .ok () o') ∧
    ∀ idx k, (f.layout expert)[idx]? = some (.tag k) → ∃ t, f.tags[k]? = some t ∧
      ∀ outKeyLen outValLen pageIdx o, 1 ≤ outKeyLen → 2 ≤ outValLen →
        ∃ out, (parserGetItem P mem expert v idx outKeyLen outValLen pageIdx).run o = .ok () out ∧
          out.ShowsTag t outKeyLen outValLen := by
  obtain ⟨f, hf, h, -⟩ := parserParse_ok hn hparse
  simp only [h.fields_eq]
  refine ⟨length_layout P h hf.tags expert, nodup_layout, ?_, ?_, ?_, ?_, ?_, ?_⟩
  · intro k
    rw [mem_layout_tag, h.count]
  · intro idx field hi outKeyLen outValLen pageIdx o
    refine ⟨run_parserGetItem_layout h hf.tags hi outKeyLen outValLen pageIdx o, ?_⟩
    refine printsItem_parserGetItem h hf.tags ?_ outKeyLen outValLen pageIdx
    rw [items_eq_layout, List.getElem?_map, hi, Option.map_some]
  · intro idx hidx outKeyLen outValLen pageIdx o
    exact ⟨_, run_parserGetItem_out hidx outKeyLen outValLen pageIdx o⟩
  · intro displayIdx hidx outKeyLen outValLen pageIdx o
    exact run_txGetItem_out hidx outKeyLen outValLen pageIdx o
  · intro displayIdx hidx outKeyLen outValLen pageIdx o o' hrun
    exact run_txGetItem_of_ok hidx hrun
  · intro idx k hi
    have hk : k < f.tags.length := (mem_layout_tag.1 (List.mem_of_getElem? hi)).2
    obtain ⟨hkey, hvalue⟩ := h.tags k _ (List.getElem?_eq_getElem hk)
    refine ⟨_, List.getElem?_eq_getElem hk, ?_⟩
    intro outKeyLen outValLen pageIdx o hkl hvl
    rw [run_parserGetItem_layout h hf.tags hi]
    exact run_parserPrintTag hP hkey hvalue hkl hvl pageIdx _

/-- The demo transaction in expert mode: no data root, so that the only tag is the item with index 5. -/
theorem items_follow_layout_demo :
    ∃ s', (parserParse Demo.tx.message (some 0) Demo.tx.message.length).run ⟨ParserContext.zero, ParserTx.zero⟩ = .ok () s' ∧
      getNumItems true s'.v = 6 ∧
      ∃ out, (parserGetItem Demo.platform Demo.tx.message true s'.v 5 40 40 0).run ⟨[], [], 0⟩ = .ok () out ∧
        out.ShowsTag ([65], [66, 67]) 40 40 := by
  have hf : Demo.tx.Acceptable := ⟨rfl, List.length_replicate, by decide⟩
  obtain ⟨s', hrun, hfields⟩ := parse_demo hf (by rw [length_message_demo hf rfl]; decide)
  obtain ⟨hnum, -, -, -, -, -, -, htag⟩ := items_follow_layout Demo.platform Demo.platform_pages _ _ (Nat.le_refl _) _ s' hrun true
  have hlayout : (s'.v.fields Demo.tx.message).layout true =
      [.target, .quantity, .reward, .lastTx, .dataSize, .tag 0] := by
    rw [hfields]
    rfl
  obtain ⟨t, ht, hshown⟩ := htag 5 0 (by rw [hlayout]; rfl)
  rw [hfields] at ht
  cases ht
  refine ⟨s', hrun, by rw [← hnum, hlayout]; rfl, hshown 40 40 0 _ (by decide) (by decide)⟩

end LedgerArweave
