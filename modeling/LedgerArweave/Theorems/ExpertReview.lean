import LedgerArweave.Theorems.Validation

/-!
# What the expert review shows of what is signed

Two transactions are reviewed alike when every item of the one shows the same title and the same text as the item of the other.
The base64url and the amount printers hide nothing. The other fields are shown as they are and read up to their first NUL, and
a data root is shown as a tag would be; that is all a review hides (`shown_eq_iff`).
-/

namespace LedgerArweave

open Lib

/-- The item, rendered into buffers of these sizes and read as C strings. -/
def Renders (P : Platform) (mem : Mem) (v : ParserTx) (idx keyLen valLen : Nat) (shown : List UInt8 × List UInt8) : Prop :=
  ∃ o out, (parserGetItem P mem true v idx keyLen valLen 0).run o = .ok () out ∧ shown = (cString out.key, cString out.val)

/-- The expert reviews of two transactions show the same. -/
structure SameReview (P : Platform) (keyLen valLen : Nat) (mem mem' : Mem) (v v' : ParserTx) : Prop where
  count : getNumItems true v = getNumItems true v'
  items : ∀ idx < getNumItems true v, ∀ x y, Renders P mem v idx keyLen valLen x → Renders P mem' v' idx keyLen valLen y → x = y

/-- The buffers are large enough for every title and every text. -/
def TxFields.FitsBuffers (P : Platform) (keyLen valLen : Nat) (f : TxFields) : Prop :=
  ∀ item ∈ f.items P true, item.title.length < keyLen ∧ ∀ t, item.text = .ok t → t.length < valLen

/-- The same content, up to zeros at the front of the quantity. -/
structure TxFields.SameContent (f g : TxFields) : Prop where
  target : f.target = g.target
  quantity : numeral f.quantity = numeral g.quantity
  reward : f.reward = g.reward
  lastTx : f.lastTx = g.lastTx
  tags : f.tags = g.tags
  dataSize : f.dataSize = g.dataSize
  dataRoot : f.dataRoot = g.dataRoot

/-- The data root, in base64url under its title, and the tags up to their first NULs. -/
def TxFields.titledData (f : TxFields) : List (List UInt8 × List UInt8) :=
  (if f.dataRoot = [] then [] else [(ascii "Data root", b64urlText f.dataRoot)]) ++
    f.tags.map fun t => (cString t.1, cString t.2)

/-- The same content as far as the first NULs, with a data root taken for a tag of that name. -/
structure TxFields.Alike (f g : TxFields) : Prop where
  target : f.target = g.target
  quantity : numeral (cString f.quantity) = numeral (cString g.quantity)
  reward : cString f.reward = cString g.reward
  lastTx : f.lastTx = g.lastTx
  dataSize : cString f.dataSize = cString g.dataSize
  data : f.titledData = g.titledData

namespace ExpertReviewAux

/-- The amount as it is shown. -/
def amountShown (b : List UInt8) : List UInt8 :=
  trimmed 1 (ascii coinDefaultDenomRepr ++ fixedPoint coinAmountDecimalPlaces (cString b))

/-- The items of the expert review, each a title and a text. -/
def shown (f : TxFields) : List (List UInt8 × List UInt8) :=
  [(ascii "Target", b64urlText f.target), (ascii "Quantity", amountShown f.quantity), (ascii "Reward", cString f.reward),
    (ascii "Last tx", b64urlText f.lastTx), (ascii "Data size", cString f.dataSize)] ++ f.titledData

/-! ## The texts -/

/-- A field of bytes that is shown is shown in base64url. -/
theorem b64urlShown_eq {b t : List UInt8} (h : b64urlShown b = .ok t) : t = b64urlText b := by
  unfold b64urlShown at h
  split at h
  · cases h
  · cases h
    rfl

/-- Base64url has no NUL. -/
theorem cString_b64urlText (b : List UInt8) : cString (b64urlText b) = b64urlText b :=
  cString_eq_self (zero_not_mem_b64urlText b)

/-- What was cut at its first NUL has none. -/
theorem cString_cString (b : List UInt8) : cString (cString b) = cString b := cString_eq_self (zero_not_mem_cString b)

/-- A size that is shown is shown as far as its first NUL. -/
theorem sizeShown_eq {b t : List UInt8} (h : sizeShown b = .ok t) : t = cString b := by
  unfold sizeShown at h
  split at h
  · cases h
  · cases h
    rw [cString_uibufferOf]

/-- The amount is the quantity up to its first NUL, with the point and the denomination. -/
theorem quantityShown_eq {P : Platform} (hP : P.Formats) {b t : List UInt8} (h : quantityShown P b = .ok t) :
    t = amountShown b ∧ cString t = t ∧ ∀ c ∈ cString b, IsDigit c := by
  obtain ⟨hlen, hnumber, hjoin⟩ := ValidationAux.quantityShown_ok_iff.1 ⟨t, h⟩
  obtain ⟨joined, hjoined⟩ := Option.ne_none_iff_exists'.1 hjoin
  have htext : cString joined = ascii coinDefaultDenomRepr ++ fixedPoint coinAmountDecimalPlaces (cString b) := by
    rw [hP.join _ _ _ _ (by decide) (by decide) hjoined, hP.fpstr _ _ (by decide) hnumber, cString_uibufferOf]
    exact List.append_nil _
  have hpoint : 46 ∈ cString joined := by
    rw [htext, fixedPoint]
    simp
  unfold quantityShown at h
  rw [if_neg (Nat.not_lt.2 hlen)] at h
  simp only [hnumber, if_false, hjoined] at h
  cases h
  refine ⟨?_, cString_cString _, ValidationAux.digits_of_renders hP ⟨hlen, hnumber, hjoin⟩⟩
  rw [hP.trimming _ _ hpoint, htext]
  rfl

/-- Quantities shown alike are the same numeral. -/
theorem amountShown_eq_iff {b c : List UInt8} (hb : ∀ x ∈ cString b, IsDigit x) (hc : ∀ x ∈ cString c, IsDigit x) :
    amountShown b = amountShown c ↔ numeral (cString b) = numeral (cString c) := by
  constructor
  · exact trimmed_fixedPoint_inj (by decide) hb hc
  · intro h
    unfold amountShown fixedPoint whole fraction padded
    rw [h]

/-! ## The items as they are rendered -/

/-- An item has a text, and this is what it shows of it. -/
def ShownAs (item : Item) (x : List UInt8 × List UInt8) : Prop := ∃ t, item.text = .ok t ∧ x = (item.title, cString t)

/-- The items of the data root and the tags show what their fields hold. -/
theorem dataItems_shownAs {f : TxFields} (hall : ∀ item ∈ f.dataItems, item.Shown) :
    List.Forall₂ ShownAs f.dataItems f.titledData := by
  have htags : List.Forall₂ ShownAs (f.tags.map tagItem) (f.tags.map fun t => (cString t.1, cString t.2)) := by
    rw [List.forall₂_map_left_iff, List.forall₂_map_right_iff]
    exact List.forall₂_same.2 fun t _ => ⟨t.2, rfl, rfl⟩
  unfold TxFields.dataItems at hall ⊢
  unfold TxFields.titledData
  by_cases hr : f.dataRoot = []
  · rw [if_pos hr, if_pos hr]
    exact htags
  · rw [if_neg hr] at hall ⊢
    rw [if_neg hr]
    obtain ⟨t, ht⟩ := hall _ List.mem_cons_self
    refine .cons ⟨t, ht, ?_⟩ htags
    rw [b64urlShown_eq ht, cString_b64urlText]

/-- The items of a transaction that passed show what `shown` says. -/
theorem items_shownAs {P : Platform} (hP : P.Formats) {f : TxFields} (hall : ∀ item ∈ f.items P true, item.Shown) :
    List.Forall₂ ShownAs (f.items P true) (shown f) := by
  simp only [TxFields.items, if_true, List.forall_mem_append, List.forall_mem_cons] at hall
  obtain ⟨⟨⟨t, ht⟩, ⟨q, hq⟩, -, ⟨l, hl⟩, -⟩, ⟨d, hd⟩, hdata⟩ := hall
  refine .cons ⟨t, ht, ?_⟩ (.cons ⟨q, hq, ?_⟩ (.cons ⟨f.reward, rfl, rfl⟩ (.cons ⟨l, hl, ?_⟩ (.cons ⟨d, hd, ?_⟩
    (dataItems_shownAs hdata)))))
  · rw [b64urlShown_eq ht, cString_b64urlText]
  · rw [(quantityShown_eq hP hq).2.1, (quantityShown_eq hP hq).1]
  · rw [b64urlShown_eq hl, cString_b64urlText]
  · rw [sizeShown_eq hd, cString_cString]

section

variable {P : Platform} {keyLen valLen n n' : Nat} {mem mem' : Mem} {f g : TxFields} {v v' : ParserTx}

/-- There is a text to show, so that the value buffer has room for more than a terminator. -/
theorem two_le_valLen (hfits : f.FitsBuffers P keyLen valLen) (hall : ∀ item ∈ f.items P true, item.Shown) : 2 ≤ valLen := by
  have hmem : ⟨ascii "Target", b64urlShown f.target⟩ ∈ f.items P true := List.mem_cons_self
  obtain ⟨t, ht⟩ := hall _ hmem
  have hlen := (hfits _ hmem).2 t ht
  have hne := (ValidationAux.b64urlShown_ok_iff.1 ⟨t, ht⟩).1
  have hpos := List.length_pos_iff.2 hne
  rw [b64urlShown_eq ht, length_b64urlText, b64urlMinimumBufferSize] at hlen
  omega

/-- An item in buffers large enough. -/
theorem renders_iff (hP : P.Formats) (h : v.Holds mem n f) (htags : f.tags.length ≤ 16)
    (hfits : f.FitsBuffers P keyLen valLen) (hall : ∀ item ∈ f.items P true, item.Shown) {idx : Nat}
    {s : List UInt8 × List UInt8} (hs : (shown f)[idx]? = some s) (x : List UInt8 × List UInt8) :
    Renders P mem v idx keyLen valLen x ↔ x = s := by
  have hshown := items_shownAs hP hall
  obtain ⟨hidx, rfl⟩ := List.getElem?_eq_some_iff.1 hs
  have hidx' : idx < (f.items P true).length := hshown.length_eq ▸ hidx
  have hi : (f.items P true)[idx]? = some (f.items P true)[idx] := List.getElem?_eq_getElem hidx'
  obtain ⟨t, ht, hx⟩ : ShownAs (f.items P true)[idx] (shown f)[idx] := (List.forall₂_iff_get.1 hshown).2 idx hidx' hidx
  obtain ⟨htitle, htext⟩ := hfits _ (List.getElem_mem hidx')
  have hval : cString (P.pageStringExt valLen t 0).1 = cString t := by
    have hlen := htext t ht
    have htwo := two_le_valLen hfits hall
    have hone : numPages (valLen - 1) t.length ≤ 255 :=
      Nat.le_trans (numPages_le_one (by omega) (by omega)) (by decide)
    rw [hP.page _ _ _ htwo hone, cString_append_replicate, Nat.zero_mul, slice, List.drop_zero,
      List.take_of_length_le (by omega)]
  have hrun : ∀ o, ∃ out, (parserGetItem P mem true v idx keyLen valLen 0).run o = .ok () out ∧
      (cString out.key, cString out.val) = (shown f)[idx] := by
    intro o
    obtain ⟨key, hkey, hrun⟩ := (printsItem_parserGetItem h htags hi keyLen valLen 0).ok t ht o
    refine ⟨_, hrun, ?_⟩
    rw [hx, hkey, List.take_of_length_le (by omega), hval]
  constructor
  · rintro ⟨o, out, hout, rfl⟩
    obtain ⟨out', hout', hs'⟩ := hrun o
    rw [hout] at hout'
    injection hout' with _ he
    rw [he, hs']
  · rintro rfl
    obtain ⟨out, hout, hs'⟩ := hrun ⟨[], [], 0⟩
    exact ⟨_, out, hout, hs'.symm⟩

/-- The reviews are the same when the lists of what is shown are. -/
theorem sameReview_iff (hP : P.Formats) (h : v.Holds mem n f) (h' : v'.Holds mem' n' g) (htags : f.tags.length ≤ 16)
    (htags' : g.tags.length ≤ 16) (hfits : f.FitsBuffers P keyLen valLen) (hfits' : g.FitsBuffers P keyLen valLen)
    (hall : ∀ item ∈ f.items P true, item.Shown) (hall' : ∀ item ∈ g.items P true, item.Shown) :
    SameReview P keyLen valLen mem mem' v v' ↔ shown f = shown g := by
  have hcount : getNumItems true v = (shown f).length := by
    rw [getNumItems_eq (P := P) h htags, (items_shownAs hP hall).length_eq]
  have hcount' : getNumItems true v' = (shown g).length := by
    rw [getNumItems_eq (P := P) h' htags', (items_shownAs hP hall').length_eq]
  constructor
  · intro hsame
    have hlen : (shown f).length = (shown g).length := by rw [← hcount, hsame.count, hcount']
    refine List.ext_getElem hlen fun idx hidx hidx' => ?_
    exact hsame.items idx (by rw [hcount]; exact hidx) _ _
      ((renders_iff hP h htags hfits hall (List.getElem?_eq_getElem hidx) _).2 rfl)
      ((renders_iff hP h' htags' hfits' hall' (List.getElem?_eq_getElem hidx') _).2 rfl)
  · intro heq
    refine ⟨by rw [hcount, hcount', heq], ?_⟩
    intro idx hidx x y hx hy
    rw [hcount] at hidx
    have hs : (shown f)[idx]? = some (shown f)[idx] := List.getElem?_eq_getElem hidx
    rw [(renders_iff hP h htags hfits hall hs x).1 hx, (renders_iff hP h' htags' hfits' hall' (by rw [← heq]; exact hs) y).1 hy]

/-- What is shown is alike when the contents are. -/
theorem shown_eq_iff (hP : P.Formats) (hall : ∀ item ∈ f.items P true, item.Shown)
    (hall' : ∀ item ∈ g.items P true, item.Shown) : shown f = shown g ↔ f.Alike g := by
  have hdigits : ∀ {f : TxFields}, (∀ item ∈ f.items P true, item.Shown) → ∀ c ∈ cString f.quantity, IsDigit c := by
    intro f hall
    obtain ⟨t, ht⟩ := hall ⟨ascii "Quantity", quantityShown P f.quantity⟩ (List.mem_cons_of_mem _ List.mem_cons_self)
    exact (quantityShown_eq hP ht).2.2
  simp only [shown, List.cons_append, List.nil_append, List.cons.injEq, Prod.mk.injEq, true_and,
    b64urlText_injective.eq_iff, amountShown_eq_iff (hdigits hall) (hdigits hall')]
  constructor
  · rintro ⟨ht, hq, hr, hl, hd, hdata⟩
    exact ⟨ht, hq, hr, hl, hd, hdata⟩
  · rintro ⟨ht, hq, hr, hl, hd, hdata⟩
    exact ⟨ht, hq, hr, hl, hd, hdata⟩

end

end ExpertReviewAux

/-- A content without NULs in the fields that are shown as they are, and without a tag that is named like the data root. -/
structure TxFields.Plain (f : TxFields) : Prop where
  quantity : 0 ∉ f.quantity
  reward : 0 ∉ f.reward
  dataSize : 0 ∉ f.dataSize
  tags : ∀ t ∈ f.tags, 0 ∉ t.1 ∧ 0 ∉ t.2 ∧ t.1 ≠ ascii "Data root"

namespace ExpertReviewAux

/-- Tags without NULs are shown whole. -/
theorem cut_tags {f : TxFields} (hf : f.Plain) : (f.tags.map fun t => (cString t.1, cString t.2)) = f.tags := by
  refine (List.map_congr_left fun t ht => ?_).trans (List.map_id f.tags)
  rw [cString_eq_self (hf.tags t ht).1, cString_eq_self (hf.tags t ht).2.1]
  rfl

/-- A data root is not taken for a tag. -/
theorem titledData_inj {f g : TxFields} (hf : f.Plain) (hg : g.Plain) (h : f.titledData = g.titledData) :
    f.dataRoot = g.dataRoot ∧ f.tags = g.tags := by
  have hroot : ∀ {f : TxFields}, f.Plain → ∀ x rest, (ascii "Data root", x) :: rest ≠ f.tags := by
    intro f hf x rest heq
    exact (hf.tags (ascii "Data root", x) (heq ▸ List.mem_cons_self)).2.2 rfl
  unfold TxFields.titledData at h
  rw [cut_tags hf, cut_tags hg] at h
  by_cases hr : f.dataRoot = []
  · by_cases hr' : g.dataRoot = []
    · rw [if_pos hr, if_pos hr'] at h
      exact ⟨hr.trans hr'.symm, h⟩
    · rw [if_pos hr, if_neg hr'] at h
      exact absurd h.symm (hroot hf _ _)
  · by_cases hr' : g.dataRoot = []
    · rw [if_neg hr, if_pos hr'] at h
      exact absurd h (hroot hg _ _)
    · rw [if_neg hr, if_neg hr'] at h
      obtain ⟨hhead, htags⟩ := List.cons.inj h
      exact ⟨b64urlText_injective (Prod.mk.inj hhead).2, htags⟩

end ExpertReviewAux

open ExpertReviewAux ValidationAux

/-- The review of plain contents hides nothing. -/
theorem TxFields.Alike.sameContent {f g : TxFields} (h : f.Alike g) (hf : f.Plain) (hg : g.Plain) : f.SameContent g where
  target := h.target
  quantity := by
    have hq := h.quantity
    rwa [cString_eq_self hf.quantity, cString_eq_self hg.quantity] at hq
  reward := by
    have hr := h.reward
    rwa [cString_eq_self hf.reward, cString_eq_self hg.reward] at hr
  lastTx := h.lastTx
  tags := (titledData_inj hf hg h.data).2
  dataSize := by
    have hd := h.dataSize
    rwa [cString_eq_self hf.dataSize, cString_eq_self hg.dataSize] at hd
  dataRoot := (titledData_inj hf hg h.data).1

/-- Two transactions that were parsed and that pass in expert mode, and buffers large enough for both: when their reviews show
the same they have the same content, unless they are alike and differ behind a NUL or in a data root taken for a tag. -/
theorem expert_review_faithful_iff (P : Platform) (hP : P.Formats) (mem mem' : Mem) (n n' : Nat) (hn : n ≤ mem.length)
    (hn' : n' ≤ mem'.length) (s s' t t' : ParseState) (hs : (parserParse mem (some 0) n).run s = .ok () s')
    (ht : (parserParse mem' (some 0) n').run t = .ok () t') (store store' : CryptoStore)
    (hvalid : parserValidate P mem store true s'.v = .ok ()) (hvalid' : parserValidate P mem' store' true t'.v = .ok ())
    (keyLen valLen : Nat) (hfits : (s'.v.fields mem).FitsBuffers P keyLen valLen)
    (hfits' : (t'.v.fields mem').FitsBuffers P keyLen valLen) :
    (SameReview P keyLen valLen mem mem' s'.v t'.v → (s'.v.fields mem).SameContent (t'.v.fields mem')) ↔
      ¬((s'.v.fields mem).Alike (t'.v.fields mem') ∧ ¬(s'.v.fields mem).SameContent (t'.v.fields mem')) := by
  obtain ⟨f, hf, hv, -⟩ := parserParse_ok hn hs
  obtain ⟨g, hg, hw, -⟩ := parserParse_ok hn' ht
  have hall := ((parserValidate_ok_iff hv hf).1 hvalid).2
  have hall' := ((parserValidate_ok_iff hw hg).1 hvalid').2
  rw [hv.fields_eq] at hfits
  rw [hw.fields_eq] at hfits'
  rw [hv.fields_eq, hw.fields_eq, sameReview_iff hP hv hw hf.tags hg.tags hfits hfits' hall hall', shown_eq_iff hP hall hall']
  exact ⟨fun h ha => ha.2 (h ha.1), fun h ha => not_not.1 fun hne => h ⟨ha, hne⟩⟩

/-- The demo transaction with another quantity and reward. -/
def Demo.paying (quantity reward : List UInt8) : TxFields := { Demo.tx with quantity := quantity, reward := reward }

/-- The parser is meant for such a transaction. -/
theorem paying_acceptable (quantity reward : List UInt8) : (Demo.paying quantity reward).Acceptable :=
  ⟨rfl, List.length_replicate, show Demo.tx.tags.length ≤ 16 by decide⟩

/-- Buffers of 16384 bytes are large enough for it. -/
theorem fitsBuffers_paying {q r : List UInt8} (hq : (amountShown q).length < 16384) (hr : r.length < 16384) :
    (Demo.paying q r).FitsBuffers Demo.platform 16384 16384 := by
  intro item hitem
  simp only [TxFields.items, TxFields.dataItems, if_true, Demo.paying, Demo.tx, List.map_cons, List.map_nil, List.cons_append,
    List.nil_append, List.mem_cons, List.not_mem_nil, or_false] at hitem
  have htitle : ∀ title ∈ ["Target", "Quantity", "Reward", "Last tx", "Data size"], (ascii title).length < 16384 := by decide
  have hb64url : ∀ b t, b64urlShown b = .ok t → (b64urlText b).length < 16384 → t.length < 16384 :=
    fun b t ht hlen => b64urlShown_eq ht ▸ hlen
  have hsize : ∀ b t, sizeShown b = .ok t → (cString b).length < 16384 → t.length < 16384 :=
    fun b t ht hlen => sizeShown_eq ht ▸ hlen
  rcases hitem with rfl | rfl | rfl | rfl | rfl | rfl
  · exact ⟨htitle "Target" (by decide), fun t ht => hb64url [1, 2] t ht (by decide)⟩
  · exact ⟨htitle "Quantity" (by decide), fun t ht => (quantityShown_eq Demo.platform_formats ht).1 ▸ hq⟩
  · exact ⟨htitle "Reward" (by decide), fun t ht => Except.ok.inj ht ▸ hr⟩
  · exact ⟨htitle "Last tx" (by decide), fun t ht => hb64url [5] t ht (by decide)⟩
  · exact ⟨htitle "Data size" (by decide), fun t ht => hsize (ascii "0") t ht (by decide)⟩
  · exact ⟨by decide, fun t ht => Except.ok.inj ht ▸ (by decide)⟩

/-- It passes in expert mode when its quantity is a numeral. -/
theorem passes_paying {q r : List UInt8} (hq : q.length ≤ 180)
    (hdigits : (q.all fun b => decide (IsDigit b)) = true) (hr : r.length ≤ 180) :
    ∃ s', (parserParse (Demo.paying q r).message (some 0) (Demo.paying q r).message.length).run
        ⟨ParserContext.zero, ParserTx.zero⟩ = .ok () s' ∧
      s'.v.Holds (Demo.paying q r).message ((Demo.paying q r).message.length % 65536) (Demo.paying q r) ∧
      parserValidate Demo.platform (Demo.paying q r).message Demo.store true s'.v = .ok () := by
  have hf := paying_acceptable q r
  have hlen : (Demo.paying q r).message.length = 542 + q.length + r.length := by
    rw [length_message_demo hf rfl, Demo.paying]
    simp only [Demo.tx, List.length_cons, List.length_nil, show (ascii "0").length = 1 from rfl]
    omega
  obtain ⟨s', hrun, hholds⟩ := parserParse_of_message (Nat.le_refl (Demo.paying q r).message.length) hf (t := [])
    (by rw [Nat.mod_eq_of_lt (by omega), List.take_length, List.append_nil]) ⟨ParserContext.zero, ParserTx.zero⟩
  refine ⟨s', hrun, hholds, ?_⟩
  rw [validate_iff (Nat.le_refl _) hrun, hholds.fields_eq]
  exact ⟨shownNormally_demo rfl ⟨hq, isDigit_of_all hdigits⟩ (show Demo.tx.target ≠ [] ∧ Demo.tx.target.length ≤ 150 by decide)
    (show Demo.tx.lastTx ≠ [] ∧ Demo.tx.lastTx.length ≤ 150 by decide),
    fun _ => ⟨show Demo.tx.dataSize.length ≤ 200 by decide, show Demo.tx.dataRoot.length ≤ 150 by decide⟩⟩

/-- Two demo transactions whose quantities differ in a zero at the front. -/
theorem expert_review_faithful_demo :
    let f := Demo.paying (ascii "10") (ascii "3")
    let g := Demo.paying (ascii "010") (ascii "3")
    ∃ s' t', (parserParse f.message (some 0) f.message.length).run ⟨ParserContext.zero, ParserTx.zero⟩ = .ok () s' ∧
      (parserParse g.message (some 0) g.message.length).run ⟨ParserContext.zero, ParserTx.zero⟩ = .ok () t' ∧
      (SameReview Demo.platform 16384 16384 f.message g.message s'.v t'.v → f.SameContent g) := by
  intro f g
  obtain ⟨s', hs, hholds, hvalid⟩ := passes_paying (q := ascii "10") (r := ascii "3") (by decide) (by decide) (by decide)
  obtain ⟨t', ht, hholds', hvalid'⟩ := passes_paying (q := ascii "010") (r := ascii "3") (by decide) (by decide) (by decide)
  have hiff := expert_review_faithful_iff Demo.platform Demo.platform_formats f.message g.message _ _ (Nat.le_refl _)
    (Nat.le_refl _) _ s' _ t' hs ht Demo.store Demo.store hvalid hvalid' 16384 16384
    (by rw [hholds.fields_eq]; exact fitsBuffers_paying (by decide) (by decide))
    (by rw [hholds'.fields_eq]; exact fitsBuffers_paying (by decide) (by decide))
  rw [hholds.fields_eq, hholds'.fields_eq] at hiff
  have hplain : ∀ q : List UInt8, 0 ∉ q → (Demo.paying q (ascii "3")).Plain := fun q hq =>
    ⟨hq, show 0 ∉ ascii "3" by decide, show 0 ∉ Demo.tx.dataSize by decide,
      show ∀ t ∈ Demo.tx.tags, 0 ∉ t.1 ∧ 0 ∉ t.2 ∧ t.1 ≠ ascii "Data root" by decide⟩
  exact ⟨s', t', hs, ht, hiff.2 fun h => h.2 (h.1.sameContent (hplain _ (by decide)) (hplain _ (by decide)))⟩

/-- Two rewards that differ behind a NUL show the same review. -/
theorem not_expert_review_faithful :
    let f := Demo.paying (ascii "10") [51]
    let g := Demo.paying (ascii "10") [51, 0, 57]
    ∃ s' t', (parserParse f.message (some 0) f.message.length).run ⟨ParserContext.zero, ParserTx.zero⟩ = .ok () s' ∧
      (parserParse g.message (some 0) g.message.length).run ⟨ParserContext.zero, ParserTx.zero⟩ = .ok () t' ∧
      parserValidate Demo.platform f.message Demo.store true s'.v = .ok () ∧
      parserValidate Demo.platform g.message Demo.store true t'.v = .ok () ∧
      f.FitsBuffers Demo.platform 16384 16384 ∧ g.FitsBuffers Demo.platform 16384 16384 ∧
      SameReview Demo.platform 16384 16384 f.message g.message s'.v t'.v ∧ f.reward ≠ g.reward := by
  intro f g
  obtain ⟨s', hs, hholds, hvalid⟩ := passes_paying (q := ascii "10") (r := [51]) (by decide) (by decide) (by decide)
  obtain ⟨t', ht, hholds', hvalid'⟩ := passes_paying (q := ascii "10") (r := [51, 0, 57]) (by decide) (by decide) (by decide)
  have hfits : f.FitsBuffers Demo.platform 16384 16384 := fitsBuffers_paying (by decide) (by decide)
  have hfits' : g.FitsBuffers Demo.platform 16384 16384 := fitsBuffers_paying (by decide) (by decide)
  have hall := ((parserValidate_ok_iff hholds (paying_acceptable _ _)).1 hvalid).2
  have hall' := ((parserValidate_ok_iff hholds' (paying_acceptable _ _)).1 hvalid').2
  refine ⟨s', t', hs, ht, hvalid, hvalid', hfits, hfits', ?_, by decide⟩
  rw [sameReview_iff Demo.platform_formats hholds hholds' (paying_acceptable _ _).tags (paying_acceptable _ _).tags hfits hfits'
    hall hall']
  rfl

end LedgerArweave
