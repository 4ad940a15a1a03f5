import LedgerArweave.Parser.Print
import Mathlib.Data.List.TakeWhile

/-!
# The review as a list of items

What a transaction shows: a list of items, each a title and a text, or the error its printer ends with. `parser_getItem` prints
these items page by page, and `parser_validate` accepts exactly the transactions of the key in use whose items all have a text.
-/

namespace LedgerArweave

open Lib

/-- An item of the review: its title, and its text or the error of its printer. -/
structure Item where
  title : List UInt8
  text : Except ParserError (List UInt8)

/-- What the printers of base64url show of a field. -/
def b64urlShown (b : List UInt8) : Except ParserError (List UInt8) :=
  if b = [] ∨ b64urlMinimumBufferSize b.length > uibufferLen then .error .unexpectedBufferEnd else .ok (b64urlText b)

/-- A local buffer of a printer with a field copied into it. -/
def uibufferOf (b : List UInt8) : List UInt8 := patch (List.replicate uibufferLen 0) 0 b

/-- What `parser_printSize` shows of a field. -/
def sizeShown (b : List UInt8) : Except ParserError (List UInt8) :=
  if b.length > uibufferLen then .error .unexpectedError else .ok (cString (uibufferOf b))

section

variable (P : Platform)

/-- What `parser_printQuantity` shows of a field. -/
def quantityShown (b : List UInt8) : Except ParserError (List UInt8) :=
  if b.length > uibufferLen then .error .unexpectedError
  else
    let (number, bufferUI) := P.intstrToFpstrInplace (uibufferOf b) coinAmountDecimalPlaces
    if number = 0 then .error .unexpectedValue
    else
      match P.zStr3join bufferUI coinDefaultDenomRepr "" with
      | none => .error .unexpectedBufferEnd
      | some bufferUI => .ok (cString (P.numberInplaceTrimming bufferUI 1))

/-- The item of a tag. -/
def tagItem (t : List UInt8 × List UInt8) : Item := ⟨cString t.1, .ok t.2⟩

/-- The items that only the expert mode shows, from the data root on. -/
def TxFields.dataItems (f : TxFields) : List Item :=
  (if f.dataRoot = [] then [] else [⟨ascii "Data root", b64urlShown f.dataRoot⟩]) ++ f.tags.map tagItem

/-- The items of a transaction. -/
def TxFields.items (expert : Bool) (f : TxFields) : List Item :=
  [⟨ascii "Target", b64urlShown f.target⟩, ⟨ascii "Quantity", quantityShown P f.quantity⟩, ⟨ascii "Reward", .ok f.reward⟩,
    ⟨ascii "Last tx", b64urlShown f.lastTx⟩] ++
  if expert then ⟨ascii "Data size", sizeShown f.dataSize⟩ :: f.dataItems else []

end

/-! ## The order of the review -/

/-- A field the review shows. -/
inductive ItemField where
  | target | quantity | reward | lastTx | dataSize | dataRoot
  | tag (k : Nat)
  deriving DecidableEq, Repr

/-- The fields in the order of the review. -/
def TxFields.layout (expert : Bool) (f : TxFields) : List ItemField :=
  [.target, .quantity, .reward, .lastTx] ++
    if expert then
      .dataSize :: ((if f.dataRoot = [] then [] else [.dataRoot]) ++ (List.range f.tags.length).map .tag)
    else []

/-- What is printed of a field, by the printer of that field and from its element. -/
def ItemField.printer (P : Platform) (mem : Mem) (v : ParserTx) (outKeyLen outValLen pageIdx : Nat) : ItemField → Printer
  | .target => do
    title outKeyLen "Target"
    parserPrintTarget P mem v.target outValLen pageIdx
  | .quantity => do
    title outKeyLen "Quantity"
    parserPrintQuantity P mem v.quantity coinAmountDecimalPlaces true "" coinDefaultDenomRepr outValLen pageIdx
  | .reward => do
    title outKeyLen "Reward"
    parserPrintReward P mem v.reward outValLen pageIdx
  | .lastTx => do
    title outKeyLen "Last tx"
    parserPrintLastTx P mem v.lastTx outValLen pageIdx
  | .dataSize => do
    title outKeyLen "Data size"
    parserPrintSize P mem v.dataSize outValLen pageIdx
  | .dataRoot => do
    title outKeyLen "Data root"
    parserPrintData P mem v.dataRoot outValLen pageIdx
  | .tag k => parserPrintTag P mem (v.tag k) outKeyLen outValLen pageIdx

/-- The item of a field. -/
def ItemField.item (P : Platform) (f : TxFields) : ItemField → Item
  | .target => ⟨ascii "Target", b64urlShown f.target⟩
  | .quantity => ⟨ascii "Quantity", quantityShown P f.quantity⟩
  | .reward => ⟨ascii "Reward", .ok f.reward⟩
  | .lastTx => ⟨ascii "Last tx", b64urlShown f.lastTx⟩
  | .dataSize => ⟨ascii "Data size", sizeShown f.dataSize⟩
  | .dataRoot => ⟨ascii "Data root", b64urlShown f.dataRoot⟩
  | .tag k => tagItem (f.tags.getD k ([], []))

/-! ## C strings -/

/-- The empty string. -/
@[simp] theorem cString_nil : cString [] = [] := rfl

/-- A string ends before its first zero. -/
theorem zero_not_mem_cString (buf : List UInt8) : 0 ∉ cString buf := by
  intro h
  have hne := List.mem_takeWhile_imp h
  exact absurd hne (by decide)

/-- A text without a zero is the string it is. -/
theorem cString_eq_self {text : List UInt8} (h : 0 ∉ text) : cString text = text := by
  rw [cString, List.takeWhile_eq_self_iff]
  exact fun b hb => decide_eq_true fun h0 => h (h0 ▸ hb)

/-- Nothing behind a terminator is read. -/
theorem cString_append_zero (text rest : List UInt8) : cString (text ++ 0 :: rest) = cString text := by
  induction text with
  | nil => rfl
  | cons b text ih =>
    rw [cString, cString, List.cons_append, List.takeWhile_cons, List.takeWhile_cons]
    split
    · exact congrArg _ ih
    · rfl

/-- Zeros behind a text do not change its string. -/
theorem cString_append_replicate (text : List UInt8) (k : Nat) : cString (text ++ List.replicate k 0) = cString text := by
  cases k with
  | zero => rw [List.replicate_zero, List.append_nil]
  | succ k => rw [List.replicate_succ, cString_append_zero]

/-- The string of a text that was cut is the string, cut. -/
theorem cString_take (text : List UInt8) (k : Nat) : cString (text.take k) = (cString text).take k :=
  List.take_takeWhile.symm

/-- A field in a local buffer, read back as a C string. -/
theorem cString_uibufferOf (b : List UInt8) : cString (uibufferOf b) = cString b := by
  rw [uibufferOf, patch, List.take_zero, List.nil_append, List.drop_replicate, cString_append_replicate]

/-- What `snprintf` leaves in a buffer of `size` bytes, read back. -/
theorem cString_snprintfInto {buf text : List UInt8} {size : Nat} (hbuf : size = 0 → buf = []) :
    cString (snprintfInto buf size text) = (cString text).take (size - 1) := by
  unfold snprintfInto
  split
  · rename_i h
    rw [hbuf h, h, Nat.zero_sub, List.take_zero, cString_nil]
  · rw [patch, List.take_zero, List.nil_append, List.append_assoc, List.singleton_append, cString_append_zero, cString_take]

/-! ## What the printers print -/

section

variable {P : Platform} {mem : Mem} {n : Nat} {f : TxFields} {v : ParserTx}

/-- The program prints a page of a text into the value buffer, or it stops with the error. -/
structure PrintsValue (P : Platform) (x : Printer) (outValLen pageIdx : Nat) (text : Except ParserError (List UInt8)) :
    Prop where
  ok : ∀ t, text = .ok t → ∀ o, x.run o =
    .ok ⟨⟩ { o with val := (P.pageStringExt outValLen t pageIdx).1, pageCount := (P.pageStringExt outValLen t pageIdx).2 }
  error : ∀ e, text = .error e → ∀ o, ∃ o', x.run o = .error e o'

/-- A printer that fills the buffers with a page of a text prints this text. -/
theorem PrintsValue.of_ok {x : Printer} {outValLen pageIdx : Nat} {t : List UInt8}
    (h : ∀ o, x.run o = .ok ⟨⟩
      { o with val := (P.pageStringExt outValLen t pageIdx).1, pageCount := (P.pageStringExt outValLen t pageIdx).2 }) :
    PrintsValue P x outValLen pageIdx (.ok t) := by
  refine ⟨?_, fun _ he => (by cases he)⟩
  intro t' ht
  cases ht
  exact h

/-- A printer that stops with an error prints no text. -/
theorem PrintsValue.of_error {x : Printer} {outValLen pageIdx : Nat} {e : ParserError} (h : ∀ o, ∃ o', x.run o = .error e o') :
    PrintsValue P x outValLen pageIdx (.error e) := by
  refine ⟨fun _ ht => (by cases ht), ?_⟩
  intro e' he
  cases he
  exact h

/-- What `b64url_encode` makes of an element that holds some bytes, in a buffer of the size the parser gives it. -/
theorem b64urlEncode_of_shows {e : ParserElement} {b : List UInt8} (he : Shows mem n e b) :
    b64urlEncode uibufferLen mem e =
      if b64urlMinimumBufferSize b.length > uibufferLen then some (0, List.replicate uibufferLen 0)
      else some ((b64urlText b).length, b64urlText b ++ List.replicate (uibufferLen - (b64urlText b).length) 0) := by
  obtain ⟨p, hp, -, -⟩ := he.view
  rw [b64urlEncode, hp, he.bytes, he.len]

/-- A field of bytes is printed as base64url. -/
theorem prints_printB64url {e : ParserElement} {b : List UInt8} (he : Shows mem n e b) (outValLen pageIdx : Nat) :
    PrintsValue P (printB64url P mem e outValLen pageIdx) outValLen pageIdx (b64urlShown b) := by
  unfold printB64url b64urlShown
  rw [b64urlEncode_of_shows he]
  by_cases hroom : b64urlMinimumBufferSize b.length > uibufferLen
  · rw [if_pos hroom, if_pos (Or.inr hroom)]
    exact .of_error fun o => ⟨_, rfl⟩
  · rw [if_neg hroom]
    by_cases hb : b = []
    · rw [if_pos (Or.inl hb), hb]
      exact .of_error fun o => ⟨_, rfl⟩
    · rw [if_neg (not_or.2 ⟨hb, hroom⟩)]
      obtain ⟨k, hk⟩ : ∃ k, (b64urlText b).length = k + 1 := by
        have hpos := List.length_pos_iff.2 hb
        refine Nat.exists_eq_succ_of_ne_zero ?_
        rw [length_b64urlText, b64urlMinimumBufferSize]
        omega
      rw [hk]
      simp only [cString_append_replicate, cString_eq_self (zero_not_mem_b64urlText b)]
      exact .of_ok fun o => rfl

/-- The quantity is printed as an amount. -/
theorem prints_parserPrintQuantity {e : ParserElement} {b : List UInt8} (he : Shows mem n e b) (outValLen pageIdx : Nat) :
    PrintsValue P (parserPrintQuantity P mem e coinAmountDecimalPlaces true "" coinDefaultDenomRepr outValLen pageIdx)
      outValLen pageIdx (quantityShown P b) := by
  unfold parserPrintQuantity quantityShown
  rw [he.bytes, he.len, uibufferOf]
  split
  · exact .of_error fun o => ⟨_, rfl⟩
  · simp only [if_true]
    split
    · exact .of_error fun o => ⟨_, rfl⟩
    · generalize P.zStr3join _ _ _ = joined
      cases joined with
      | none => exact .of_error fun o => ⟨_, rfl⟩
      | some bufferUI => exact .of_ok fun o => rfl

/-- The size of the data is printed as a number. -/
theorem prints_parserPrintSize {e : ParserElement} {b : List UInt8} (he : Shows mem n e b) (outValLen pageIdx : Nat) :
    PrintsValue P (parserPrintSize P mem e outValLen pageIdx) outValLen pageIdx (sizeShown b) := by
  unfold parserPrintSize sizeShown
  rw [he.bytes, he.len, uibufferOf]
  split
  · exact .of_error fun o => ⟨_, rfl⟩
  · exact .of_ok fun o => rfl

/-- The reward is printed as the text it is. -/
theorem prints_parserPrintReward {e : ParserElement} {b : List UInt8} (he : Shows mem n e b) (outValLen pageIdx : Nat) :
    PrintsValue P (parserPrintReward P mem e outValLen pageIdx) outValLen pageIdx (.ok b) := by
  unfold parserPrintReward
  rw [he.bytes]
  exact .of_ok fun o => rfl

/-! ## `parser_getItem` -/

/-- What `parser_getItem` does with an item: the key buffer shows the title, cut to its size, and the value buffer a page of the
text; or it stops with the error. -/
structure PrintsItem (P : Platform) (x : Printer) (outKeyLen outValLen pageIdx : Nat) (item : Item) : Prop where
  ok : ∀ t, item.text = .ok t → ∀ o, ∃ key, cString key = item.title.take (outKeyLen - 1) ∧
    x.run o = .ok ⟨⟩ ⟨key, (P.pageStringExt outValLen t pageIdx).1, (P.pageStringExt outValLen t pageIdx).2⟩
  error : ∀ e, item.text = .error e → ∀ o, ∃ o', x.run o = .error e o'

/-- The buffers as `parser_getItem` prepares them for every item. -/
def preparedFor (idx outKeyLen outValLen : Nat) : ItemOut where
  key := snprintfInto (List.replicate outKeyLen 0) outKeyLen (ascii "? " ++ decimal idx)
  val := snprintfInto (List.replicate outValLen 0) outValLen (ascii "?")
  pageCount := 1

/-- An item with a fixed title. -/
theorem printsItem_of_title (idx : Nat) {x printer : Printer} {outKeyLen outValLen pageIdx : Nat} {text : String}
    {value : Except ParserError (List UInt8)} (h0 : 0 ∉ ascii text)
    (hrun : ∀ o, x.run o = (title outKeyLen text >>= fun _ => printer).run (preparedFor idx outKeyLen outValLen))
    (hp : PrintsValue P printer outValLen pageIdx value) : PrintsItem P x outKeyLen outValLen pageIdx ⟨ascii text, value⟩ := by
  have hbuf : outKeyLen = 0 → (preparedFor idx outKeyLen outValLen).key = [] := by
    rintro rfl
    rfl
  constructor
  · intro t ht o
    refine ⟨snprintfInto (preparedFor idx outKeyLen outValLen).key outKeyLen (ascii text), ?_, ?_⟩
    · rw [cString_snprintfInto hbuf, cString_eq_self h0]
    · rw [hrun, title, run_bind_of_ok (run_modify _ _), hp.ok t ht]
  · intro e he o
    obtain ⟨o', ho'⟩ := hp.error e he { preparedFor idx outKeyLen outValLen with
      key := snprintfInto (preparedFor idx outKeyLen outValLen).key outKeyLen (ascii text) }
    refine ⟨o', ?_⟩
    rw [hrun, title, run_bind_of_ok (run_modify _ _)]
    exact ho'

/-- The item of a tag. -/
theorem printsItem_tag (idx : Nat) {x : Printer} {g : ParserTag} {t : List UInt8 × List UInt8}
    {outKeyLen outValLen pageIdx : Nat}
    (hk : Shows mem n g.key t.1) (hw : Shows mem n g.value t.2)
    (hrun : ∀ o, x.run o = (parserPrintTag P mem g outKeyLen outValLen pageIdx).run (preparedFor idx outKeyLen outValLen)) :
    PrintsItem P x outKeyLen outValLen pageIdx (tagItem t) := by
  obtain ⟨p, hp, -, hs⟩ := hk.view
  have hmax : (if outKeyLen ≥ g.key.len + 1 then g.key.len + 1 else outKeyLen) - 1 = min (outKeyLen - 1) g.key.len := by
    split <;> omega
  have hbuf : (if outKeyLen ≥ g.key.len + 1 then g.key.len + 1 else outKeyLen) = 0 →
      List.replicate outKeyLen (0 : UInt8) = [] := by
    intro h0
    rw [show outKeyLen = 0 by split at h0 <;> omega]
    rfl
  refine ⟨?_, fun _ he => (by cases he)⟩
  intro value hvalue o
  cases hvalue
  refine ⟨_, ?_, (hrun o).trans (by rw [parserPrintTag, hw.bytes]; rfl)⟩
  rw [cString_snprintfInto hbuf, cString_eq_self (zero_not_mem_cString _), hmax, tagItem, ← hs, slice, cString_take,
    List.take_take, hp, Option.getD_some, ← hk.len]

/-- The number of items. -/
theorem getNumItems_eq (h : v.Holds mem n f) (htags : f.tags.length ≤ 16) (expert : Bool) :
    getNumItems expert v = (f.items P expert).length := by
  have hroot : v.dataRoot.len > 0 ↔ f.dataRoot ≠ [] := by
    rw [h.dataRoot.len]
    exact List.length_pos_iff
  unfold getNumItems TxFields.items
  cases expert with
  | false => rfl
  | true =>
    rw [h.count]
    simp only [Bool.not_true, Bool.false_eq_true, if_false, if_true, hroot, TxFields.dataItems, List.length_append,
      List.length_cons, List.length_nil, List.length_map, constNumUiItems, dataSizeNumUiItems, dataRootNumUiItems]
    by_cases hr : f.dataRoot = []
    · simp only [hr, ne_eq, not_true, if_false, if_true, List.length_nil]
      omega
    · simp only [hr, ne_eq, not_false_eq_true, if_false, if_true, List.length_cons, List.length_nil]
      omega

/-- The items of the review are those of the fields, in their order. -/
theorem items_eq_layout (expert : Bool) : f.items P expert = (f.layout expert).map (ItemField.item P f) := by
  have htags : f.tags.map tagItem = ((List.range f.tags.length).map ItemField.tag).map (ItemField.item P f) := by
    apply List.ext_getElem?
    intro i
    rw [List.map_map, List.getElem?_map, List.getElem?_map]
    by_cases hi : i < f.tags.length
    · rw [List.getElem?_range hi, List.getElem?_eq_getElem hi, Option.map_some, Option.map_some]
      simp only [Function.comp, ItemField.item, List.getD_eq_getElem?_getD, List.getElem?_eq_getElem hi, Option.getD_some]
    · rw [List.getElem?_eq_none (by omega), List.getElem?_eq_none (by simpa using hi)]
      rfl
  unfold TxFields.items TxFields.layout TxFields.dataItems
  rw [htags]
  cases expert with
  | false => rfl
  | true =>
    by_cases hr : f.dataRoot = []
    · simp only [hr, if_true, List.nil_append, List.map_append, List.map_cons, List.map_nil]
      rfl
    · simp only [hr, if_true, if_false, List.map_append, List.map_cons, List.map_nil]
      rfl

/-- The layout has as many items as `_getNumItems` counts. -/
theorem length_layout (P : Platform) (h : v.Holds mem n f) (htags : f.tags.length ≤ 16) (expert : Bool) :
    (f.layout expert).length = getNumItems expert v := by
  rw [getNumItems_eq (P := P) h htags, items_eq_layout, List.length_map]

/-- Tags are items in expert mode only, each tag once. -/
theorem mem_layout_tag {expert : Bool} {k : Nat} : .tag k ∈ f.layout expert ↔ expert = true ∧ k < f.tags.length := by
  unfold TxFields.layout
  cases expert with
  | false => simp
  | true => by_cases hr : f.dataRoot = [] <;> simp [hr]

/-- Behind the four items of the normal mode and the data size, `parser_getItem` prints the data root, if there is one. -/
theorem run_parserGetItem_dataRoot {expert : Bool} (hidx : ¬5 ≥ getNumItems expert v) (hroot : v.dataRoot.len ≠ 0)
    (outKeyLen outValLen pageIdx : Nat) (o : ItemOut) :
    (parserGetItem P mem expert v 5 outKeyLen outValLen pageIdx).run o =
      (ItemField.dataRoot.printer P mem v outKeyLen outValLen pageIdx).run (preparedFor 5 outKeyLen outValLen) := by
  unfold parserGetItem
  simp only [if_neg hidx, true_and, if_pos hroot]
  rfl

/-- Behind these, it prints the tags. -/
theorem run_parserGetItem_tag {expert : Bool} {j k : Nat} (hidx : ¬j + 5 ≥ getNumItems expert v)
    (htag : j = k + (if v.dataRoot.len ≠ 0 then 1 else 0)) (hk : k < 16) (outKeyLen outValLen pageIdx : Nat) (o : ItemOut) :
    (parserGetItem P mem expert v (j + 5) outKeyLen outValLen pageIdx).run o =
      ((ItemField.tag k).printer P mem v outKeyLen outValLen pageIdx).run (preparedFor (j + 5) outKeyLen outValLen) := by
  have hroot : ¬(j + 5 = 5 ∧ v.dataRoot.len ≠ 0) := by
    rintro ⟨hj, hlen⟩
    rw [if_pos hlen] at htag
    omega
  have hsub : j + 5 - (constNumUiItems + dataSizeNumUiItems + (if v.dataRoot.len ≠ 0 then dataRootNumUiItems else 0)) = k := by
    simp only [constNumUiItems, dataSizeNumUiItems, dataRootNumUiItems]
    omega
  unfold parserGetItem
  simp only [if_neg hidx, if_neg hroot, hsub, if_neg (Nat.not_le.2 hk : ¬k ≥ maxNumberTags)]
  rfl

/-- `parser_getItem` prints the field that the order of the review has at the index. -/
theorem run_parserGetItem_layout (h : v.Holds mem n f) (htags : f.tags.length ≤ 16) {expert : Bool} {idx : Nat}
    {field : ItemField} (hi : (f.layout expert)[idx]? = some field) (outKeyLen outValLen pageIdx : Nat) (o : ItemOut) :
    (parserGetItem P mem expert v idx outKeyLen outValLen pageIdx).run o =
      (field.printer P mem v outKeyLen outValLen pageIdx).run (preparedFor idx outKeyLen outValLen) := by
  have hidx : ¬idx ≥ getNumItems expert v := by
    rw [← length_layout P h htags]
    exact Nat.not_le.2 (List.getElem?_eq_some_iff.1 hi).1
  rcases idx with _ | _ | _ | _ | _ | j
  iterate 4
    · cases hi
      unfold parserGetItem
      simp only [if_neg hidx]
      rfl
  · cases expert with
    | false => cases hi
    | true =>
      cases hi
      unfold parserGetItem
      simp only [if_neg hidx]
      rfl
  · cases expert with
    | false => cases hi
    | true =>
      replace hi : ((if f.dataRoot = [] then [] else [.dataRoot]) ++ (List.range f.tags.length).map ItemField.tag)[j]? =
        some field := hi
      have hroot : v.dataRoot.len ≠ 0 ↔ f.dataRoot ≠ [] := by
        rw [h.dataRoot.len]
        exact List.length_eq_zero_iff.not
      have htag : ∀ {k}, ((List.range f.tags.length).map ItemField.tag)[k]? = some field → .tag k = field ∧ k < 16 := by
        intro k hk
        rw [List.getElem?_map] at hk
        obtain ⟨i, hrange, hfield⟩ := Option.map_eq_some_iff.1 hk
        obtain ⟨hlt, heq⟩ := List.getElem?_eq_some_iff.1 hrange
        rw [List.getElem_range] at heq
        rw [List.length_range] at hlt
        exact ⟨by rw [heq, hfield], by omega⟩
      by_cases hr : f.dataRoot = []
      · rw [if_pos hr, List.nil_append] at hi
        obtain ⟨rfl, hk⟩ := htag hi
        exact run_parserGetItem_tag hidx (by rw [if_neg (not_not.2 hr ∘ hroot.1), Nat.add_zero]) hk outKeyLen outValLen pageIdx o
      · rw [if_neg hr] at hi
        cases j with
        | zero =>
          cases hi
          exact run_parserGetItem_dataRoot hidx (hroot.2 hr) outKeyLen outValLen pageIdx o
        | succ k =>
          obtain ⟨rfl, hk⟩ := htag (show _ = some field from hi)
          exact run_parserGetItem_tag hidx (by rw [if_pos (hroot.2 hr)]) hk outKeyLen outValLen pageIdx o

/-- The printer of a field shows the text of the field. -/
theorem printsItem_of_printer (h : v.Holds mem n f) {expert : Bool} {field : ItemField} (hfield : field ∈ f.layout expert)
    (idx : Nat) {x : Printer} {outKeyLen outValLen pageIdx : Nat}
    (hrun : ∀ o, x.run o = (field.printer P mem v outKeyLen outValLen pageIdx).run (preparedFor idx outKeyLen outValLen)) :
    PrintsItem P x outKeyLen outValLen pageIdx (field.item P f) := by
  cases field with
  | target => exact printsItem_of_title idx (by decide) hrun (prints_printB64url h.target outValLen pageIdx)
  | quantity => exact printsItem_of_title idx (by decide) hrun (prints_parserPrintQuantity h.quantity outValLen pageIdx)
  | reward => exact printsItem_of_title idx (by decide) hrun (prints_parserPrintReward h.reward outValLen pageIdx)
  | lastTx => exact printsItem_of_title idx (by decide) hrun (prints_printB64url h.lastTx outValLen pageIdx)
  | dataSize => exact printsItem_of_title idx (by decide) hrun (prints_parserPrintSize h.dataSize outValLen pageIdx)
  | dataRoot => exact printsItem_of_title idx (by decide) hrun (prints_printB64url h.dataRoot outValLen pageIdx)
  | tag k =>
    have hk : k < f.tags.length := (mem_layout_tag.1 hfield).2
    have ht : f.tags[k]? = some (f.tags.getD k ([], [])) := by
      rw [List.getD_eq_getElem?_getD, List.getElem?_eq_getElem hk, Option.getD_some]
    obtain ⟨hkey, hvalue⟩ := h.tags k _ ht
    exact printsItem_tag idx hkey hvalue hrun

/-- `parser_getItem` prints the items of the transaction. -/
theorem printsItem_parserGetItem (h : v.Holds mem n f) (htags : f.tags.length ≤ 16) {expert : Bool} {idx : Nat} {item : Item}
    (hi : (f.items P expert)[idx]? = some item) (outKeyLen outValLen pageIdx : Nat) :
    PrintsItem P (parserGetItem P mem expert v idx outKeyLen outValLen pageIdx) outKeyLen outValLen pageIdx item := by
  rw [items_eq_layout, List.getElem?_map] at hi
  obtain ⟨field, hfield, rfl⟩ := Option.map_eq_some_iff.1 hi
  exact printsItem_of_printer h (List.mem_of_getElem? hfield) idx
    (run_parserGetItem_layout h htags hfield outKeyLen outValLen pageIdx)

end

/-! ## `parser_validate` -/

/-- The owner of a transaction is the modulus of the slot in use. -/
def OwnerInUse (store : CryptoStore) (owner : List UInt8) : Prop :=
  cryptoStoreIsInitialized store = true ∧ owner = store.slot.rsaPub.n.1

section

variable {P : Platform} {mem : Mem} {n : Nat} {f : TxFields} {v : ParserTx} {store : CryptoStore}

/-- A half of the owner passes when there is a key in use and it is that of this key. -/
theorem validateOwnerHalf_ok_iff {i : Nat} (hi : ¬i > 1) :
    validateOwnerHalf mem store v i = .ok () ↔ cryptoStoreIsInitialized store = true ∧
      slice mem (v.owner.ptr.getD 0 + i * rsaModulusHalve) rsaModulusHalve =
        slice store.slot.rsaPub.n.1 (i * rsaModulusHalve) rsaModulusHalve := by
  unfold validateOwnerHalf
  rw [cryptoGetpubkeyPart_eq store (show 256 ≤ rsaModulusHalve by decide), if_neg hi, cryptoStoreIsInitialized]
  cases hinit : store.slot.initialized with
  | false => simp
  | true =>
    simp only [if_true, true_and]
    split
    · rename_i hne
      exact iff_of_false (by simp) hne
    · rename_i heq
      exact iff_of_true rfl (not_not.1 heq)

/-- The owner, half by half. -/
theorem validateTx_ok_iff {owner : List UInt8} (hs : Shows mem n v.owner owner) (hlen : owner.length = 512) :
    validateTx mem store v = .ok () ↔ OwnerInUse store owner := by
  obtain ⟨p, hp, -, howner⟩ := hs.view
  rw [hlen] at howner
  have halves : ∀ (l : List UInt8) (o : Nat), slice l o 512 = slice l o 256 ++ slice l (o + 256) 256 :=
    fun l o => slice_add l o 256 256
  have hmod : store.slot.rsaPub.n.1 = slice store.slot.rsaPub.n.1 0 512 := by
    rw [slice, List.drop_zero, List.take_of_length_le (Nat.le_of_eq store.slot.rsaPub.n.2)]
  have hlen0 : (slice mem p 256).length = (slice store.slot.rsaPub.n.1 0 256).length := by
    have h1 := congrArg List.length howner
    have h2 := length_slice_le mem p 256
    have h3 := length_slice_le mem (p + 256) 256
    rw [halves, List.length_append, hlen] at h1
    have h4 : (slice store.slot.rsaPub.n.1 0 256).length = 256 := length_slice (by rw [store.slot.rsaPub.n.2]; decide)
    omega
  have hptr : v.owner.ptr.getD 0 = p := by rw [hp, Option.getD_some]
  constructor
  · intro h
    obtain ⟨_, h0, h1⟩ := except_bind_ok h
    obtain ⟨hi, half0⟩ := (validateOwnerHalf_ok_iff (by decide)).1 h0
    obtain ⟨-, half1⟩ := (validateOwnerHalf_ok_iff (by decide)).1 h1
    rw [hptr] at half0 half1
    refine ⟨hi, ?_⟩
    rw [← howner, hmod, halves, halves]
    exact congrArg₂ (· ++ ·) half0 half1
  · rintro ⟨hi, heq⟩
    rw [← howner, hmod, halves, halves] at heq
    obtain ⟨half0, half1⟩ := List.append_inj heq hlen0
    have h0 : validateOwnerHalf mem store v 0 = .ok () :=
      (validateOwnerHalf_ok_iff (by decide)).2 ⟨hi, by rw [hptr]; exact half0⟩
    have h1 : validateOwnerHalf mem store v 1 = .ok () :=
      (validateOwnerHalf_ok_iff (by decide)).2 ⟨hi, by rw [hptr]; exact half1⟩
    unfold validateTx
    rw [h0, h1]
    rfl

/-- The item has a text. -/
def Item.Shown (item : Item) : Prop := ∃ t, item.text = .ok t

/-- The loop of `parser_validate` returns when the items it goes over have a text. The induction is on the items left. -/
theorem validateItems_ok_iff (h : v.Holds mem n f) (htags : f.tags.length ≤ 16) {expert : Bool} :
    ∀ (items before : List Item) (o : ItemOut), f.items P expert = before ++ items →
      ((∃ o', (validateItems P mem expert v items.length before.length).run o = .ok () o') ↔ ∀ item ∈ items, item.Shown) := by
  intro items
  induction items with
  | nil =>
    intro before o _
    exact iff_of_true ⟨o, rfl⟩ (by simp)
  | cons item items ih =>
    intro before o hitems
    have hi : (f.items P expert)[before.length]? = some item := by
      rw [hitems, List.getElem?_append_right (Nat.le_refl _), Nat.sub_self, List.getElem?_cons_zero]
    have hprint := printsItem_parserGetItem h htags hi tmpLen tmpLen 0
    rw [List.length_cons, validateItems, List.forall_mem_cons]
    cases htext : item.text with
    | error e =>
      obtain ⟨o', hrun⟩ := hprint.error e htext o
      rw [run_bind_of_error hrun]
      refine iff_of_false ?_ ?_
      · rintro ⟨_, hok⟩
        cases hok
      · rintro ⟨⟨t, ht⟩, -⟩
        rw [htext] at ht
        cases ht
    | ok t =>
      obtain ⟨key, -, hrun⟩ := hprint.ok t htext o
      have hrest := ih (before ++ [item]) ⟨key, (P.pageStringExt tmpLen t 0).1, (P.pageStringExt tmpLen t 0).2⟩
        (by rw [hitems, List.append_assoc, List.singleton_append])
      rw [List.length_append, List.length_singleton] at hrest
      rw [run_bind_of_ok hrun, hrest]
      exact ⟨fun hs => ⟨⟨t, htext⟩, hs⟩, fun hs => hs.2⟩

/-- `parser_validate` accepts the transactions of the key in use whose items all have a text. -/
theorem parserValidate_ok_iff (h : v.Holds mem n f) (hf : f.Acceptable) {expert : Bool} :
    parserValidate P mem store expert v = .ok () ↔
      OwnerInUse store f.owner ∧ ∀ item ∈ f.items P expert, item.Shown := by
  rw [← validateTx_ok_iff h.owner hf.owner, ← validateItems_ok_iff h hf.tags (f.items P expert) []
    ⟨List.replicate tmpLen 0, List.replicate tmpLen 0, 0⟩ rfl, ← getNumItems_eq h hf.tags]
  unfold parserValidate
  constructor
  · intro hval
    obtain ⟨_, htx, hitems⟩ := except_bind_ok hval
    refine ⟨htx, ?_⟩
    split at hitems
    · rename_i o' hrun
      exact ⟨o', hrun⟩
    · cases hitems
  · rintro ⟨htx, o', hrun⟩
    rw [htx, List.length_nil] at *
    simp only [bind, Except.bind, hrun]

end

end LedgerArweave
