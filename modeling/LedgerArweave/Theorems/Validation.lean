import LedgerArweave.Formatting

/-!
# What `parser_validate` accepts

A transaction passes when its owner is the modulus of the slot in use and every item of the current mode can be shown. So the
data size and the data root count in expert mode only, and a transaction without a target or a last transaction never passes:
`b64url_encode` returns the length of what it wrote, and its callers take an empty result for a failure.
-/

namespace LedgerArweave

open Lib

/-- `parser_printQuantity` gets through: the copy, the decimal point and the denomination. -/
def QuantityRenders (P : Platform) (b : List UInt8) : Prop :=
  b.length ≤ uibufferLen ∧ (P.intstrToFpstrInplace (uibufferOf b) coinAmountDecimalPlaces).1 ≠ 0 ∧
    P.zStr3join (P.intstrToFpstrInplace (uibufferOf b) coinAmountDecimalPlaces).2 coinDefaultDenomRepr "" ≠ none

/-- The owner is the modulus of the slot in use, and the items of the normal mode can be shown. -/
structure TxFields.ShownNormally (P : Platform) (store : CryptoStore) (f : TxFields) : Prop where
  owner : OwnerInUse store f.owner
  target : f.target ≠ [] ∧ f.target.length ≤ 150
  quantity : QuantityRenders P f.quantity
  lastTx : f.lastTx ≠ [] ∧ f.lastTx.length ≤ 150

/-- The items of the expert mode that have a bound can be shown. -/
structure TxFields.ShownInExpert (f : TxFields) : Prop where
  dataSize : f.dataSize.length ≤ 200
  dataRoot : f.dataRoot.length ≤ 150

/-- A transaction of the key in use whose fields fit the review; its target and its last transaction may be empty. -/
structure TxFields.Displayable (store : CryptoStore) (expert : Bool) (f : TxFields) : Prop where
  owner : OwnerInUse store f.owner
  target : f.target.length ≤ 150
  lastTx : f.lastTx.length ≤ 150
  quantity : 1 ≤ f.quantity.length ∧ f.quantity.length ≤ 180 ∧ ∀ b ∈ f.quantity, IsDigit b
  expert : expert = true → f.ShownInExpert

/-- Something of the transaction cannot be shown. -/
def TxFields.Undisplayable (expert : Bool) (f : TxFields) : Prop :=
  f.target.length > 150 ∨ f.lastTx.length > 150 ∨ (expert = true ∧ (f.dataRoot.length > 150 ∨ f.dataSize.length > 200)) ∨
    ∃ b ∈ cString f.quantity, ¬IsDigit b

namespace ValidationAux

/-! ## The items that have a text -/

/-- The base64url text of 150 bytes fills a local buffer. -/
theorem b64urlShown_ok_iff {b : List UInt8} : (∃ t, b64urlShown b = .ok t) ↔ b ≠ [] ∧ b.length ≤ 150 := by
  have hroom : b64urlMinimumBufferSize b.length > uibufferLen ↔ ¬b.length ≤ 150 := by
    simp only [b64urlMinimumBufferSize, uibufferLen]
    split <;> omega
  unfold b64urlShown
  split
  · rename_i h
    exact iff_of_false (by rintro ⟨_, ht⟩; cases ht) fun hb => h.elim hb.1 fun hl => hroom.1 hl hb.2
  · rename_i h
    exact iff_of_true ⟨_, rfl⟩ ⟨fun hb => h (Or.inl hb), not_not.1 fun hl => h (Or.inr (hroom.2 hl))⟩

theorem sizeShown_ok_iff {b : List UInt8} : (∃ t, sizeShown b = .ok t) ↔ b.length ≤ 200 := by
  unfold sizeShown
  split
  · rename_i h
    exact iff_of_false (by rintro ⟨_, ht⟩; cases ht) (Nat.not_le.2 h)
  · rename_i h
    exact iff_of_true ⟨_, rfl⟩ (Nat.le_of_not_lt h)

theorem quantityShown_ok_iff {P : Platform} {b : List UInt8} : (∃ t, quantityShown P b = .ok t) ↔ QuantityRenders P b := by
  unfold quantityShown QuantityRenders
  by_cases hlen : b.length > uibufferLen
  · rw [if_pos hlen]
    exact iff_of_false (by rintro ⟨_, ht⟩; cases ht) fun h => absurd h.1 (Nat.not_le.2 hlen)
  · rw [if_neg hlen]
    by_cases hnumber : (P.intstrToFpstrInplace (uibufferOf b) coinAmountDecimalPlaces).1 = 0
    · simp only [hnumber, if_true]
      exact iff_of_false (by rintro ⟨_, ht⟩; cases ht) fun h => h.2.1 rfl
    · simp only [hnumber, if_false]
      cases hjoin : P.zStr3join (P.intstrToFpstrInplace (uibufferOf b) coinAmountDecimalPlaces).2 coinDefaultDenomRepr "" with
      | none => exact iff_of_false (by rintro ⟨_, ht⟩; cases ht) fun h => h.2.2 rfl
      | some joined => exact iff_of_true ⟨_, rfl⟩ ⟨Nat.le_of_not_lt hlen, hnumber, Option.some_ne_none _⟩

/-- The items of the data can be shown when the data root is not too long: without a data root there is no such item, and a tag
can always be shown. -/
theorem dataItems_shown_iff {f : TxFields} : (∀ item ∈ f.dataItems, item.Shown) ↔ f.dataRoot.length ≤ 150 := by
  have htags : ∀ item ∈ f.tags.map tagItem, item.Shown := by
    intro item hitem
    obtain ⟨t, -, rfl⟩ := List.mem_map.1 hitem
    exact ⟨t.2, rfl⟩
  unfold TxFields.dataItems
  by_cases hr : f.dataRoot = []
  · rw [if_pos hr, List.nil_append, hr]
    exact iff_of_true htags (by decide)
  · rw [if_neg hr, List.singleton_append, List.forall_mem_cons]
    have hroot : Item.Shown ⟨ascii "Data root", b64urlShown f.dataRoot⟩ ↔ f.dataRoot ≠ [] ∧ f.dataRoot.length ≤ 150 :=
      b64urlShown_ok_iff
    rw [hroot]
    exact ⟨fun h => h.1.2, fun h => ⟨⟨hr, h⟩, htags⟩⟩

/-- What `parser_validate` accepts of what `parser_parse` accepted. -/
theorem validate_iff {P : Platform} {mem : Mem} {n : Nat} (hn : n ≤ mem.length) {s s' : ParseState}
    (hparse : (parserParse mem (some 0) n).run s = .ok () s') (store : CryptoStore) (expert : Bool) :
    parserValidate P mem store expert s'.v = .ok () ↔
      (s'.v.fields mem).ShownNormally P store ∧ (expert = true → (s'.v.fields mem).ShownInExpert) := by
  obtain ⟨f, hf, hholds, -⟩ := parserParse_ok hn hparse
  have htarget : Item.Shown ⟨ascii "Target", b64urlShown f.target⟩ ↔ f.target ≠ [] ∧ f.target.length ≤ 150 :=
    b64urlShown_ok_iff
  have hquantity : Item.Shown ⟨ascii "Quantity", quantityShown P f.quantity⟩ ↔ QuantityRenders P f.quantity :=
    quantityShown_ok_iff
  have hreward : Item.Shown ⟨ascii "Reward", .ok f.reward⟩ := ⟨f.reward, rfl⟩
  have hlast : Item.Shown ⟨ascii "Last tx", b64urlShown f.lastTx⟩ ↔ f.lastTx ≠ [] ∧ f.lastTx.length ≤ 150 :=
    b64urlShown_ok_iff
  have hsize : Item.Shown ⟨ascii "Data size", sizeShown f.dataSize⟩ ↔ f.dataSize.length ≤ 200 := sizeShown_ok_iff
  have hexpert : (∀ item ∈ (if expert = true then ⟨ascii "Data size", sizeShown f.dataSize⟩ :: f.dataItems else []),
      item.Shown) ↔ (expert = true → f.ShownInExpert) := by
    by_cases hx : expert = true
    · rw [if_pos hx, List.forall_mem_cons, hsize, dataItems_shown_iff]
      exact ⟨fun h _ => ⟨h.1, h.2⟩, fun h => ⟨(h hx).dataSize, (h hx).dataRoot⟩⟩
    · rw [if_neg hx]
      exact iff_of_true (fun _ h => absurd h List.not_mem_nil) fun h => absurd h hx
  rw [parserValidate_ok_iff hholds hf, hholds.fields_eq, TxFields.items, List.forall_mem_append, hexpert]
  simp only [List.forall_mem_cons, htarget, hquantity, hlast, List.not_mem_nil, false_implies, implies_true, and_true]
  constructor
  · rintro ⟨ho, ⟨ht, hq, -, hl⟩, hx⟩
    exact ⟨⟨ho, ht, hq, hl⟩, hx⟩
  · rintro ⟨h, hx⟩
    exact ⟨h.owner, ⟨h.target, h.quantity, hreward, h.lastTx⟩, hx⟩

/-! ## The quantity -/

theorem cString_of_digits {b : List UInt8} (hb : ∀ c ∈ b, IsDigit c) : cString b = b :=
  cString_eq_self fun h0 => absurd (hb 0 h0) (by decide)

/-- Up to 180 digits are rendered: with the point and the denomination they fit the local buffer. -/
theorem renders_of_digits {P : Platform} (hP : P.Formats) {b : List UInt8} (hlen : b.length ≤ 180)
    (hb : ∀ c ∈ b, IsDigit c) : QuantityRenders P b := by
  have hbuf : (uibufferOf b).length = 200 := by
    rw [uibufferOf, length_patch (by rw [List.length_replicate, uibufferLen]; omega), List.length_replicate, uibufferLen]
  have htext : cString (uibufferOf b) = b := by rw [cString_uibufferOf, cString_of_digits hb]
  have hnumeral : (numeral b).length ≤ b.length := (List.dropWhile_sublist _).length_le
  have hfixed : (fixedPoint coinAmountDecimalPlaces b).length ≤ 181 := by
    rw [length_fixedPoint, coinAmountDecimalPlaces]
    omega
  have hnumber : (P.intstrToFpstrInplace (uibufferOf b) coinAmountDecimalPlaces).1 ≠ 0 := by
    intro h0
    rw [hP.fpstrFails _ _ (by decide), htext, hbuf] at h0
    rcases h0 with ⟨c, hc, hdigit⟩ | hroom
    · exact hdigit (hb c hc)
    · omega
  refine ⟨by rw [uibufferLen]; omega, hnumber, ?_⟩
  rw [ne_eq, hP.joinFails, hP.fpstr _ _ (by decide) hnumber, htext, hP.fpstrLength, hbuf]
  have hpre : (ascii coinDefaultDenomRepr).length = 3 := rfl
  have hsuf : (ascii "").length = 0 := rfl
  rw [List.length_append, List.length_append, hpre, hsuf]
  omega

/-- A character that is no digit, before the first NUL, is refused. -/
theorem digits_of_renders {P : Platform} (hP : P.Formats) {b : List UInt8} (h : QuantityRenders P b) :
    ∀ c ∈ cString b, IsDigit c := by
  intro c hc
  by_contra hdigit
  refine h.2.1 ((hP.fpstrFails _ _ (by decide)).2 (Or.inl ⟨c, ?_, hdigit⟩))
  rw [cString_uibufferOf]
  exact hc

/-! ## Transactions of the demo store -/

/-- A transaction of the demo store with a quantity of digits is shown. -/
theorem shownNormally_demo {f : TxFields} (howner : f.owner = Demo.tx.owner)
    (hq : f.quantity.length ≤ 180 ∧ ∀ b ∈ f.quantity, IsDigit b)
    (ht : f.target ≠ [] ∧ f.target.length ≤ 150) (hl : f.lastTx ≠ [] ∧ f.lastTx.length ≤ 150) :
    f.ShownNormally Demo.platform Demo.store where
  owner := ⟨rfl, howner⟩
  target := ht
  quantity := renders_of_digits Demo.platform_formats hq.1 hq.2
  lastTx := hl

theorem digits_demo : Demo.tx.quantity.length ≤ 180 ∧ ∀ b ∈ Demo.tx.quantity, IsDigit b :=
  ⟨by decide, isDigit_of_all (by decide)⟩

/-- A message is parsed from a buffer that holds nothing else. -/
theorem parse_demo {f : TxFields} (hf : f.Acceptable) (hlen : f.message.length < 65536) :
    ∃ s', (parserParse f.message (some 0) f.message.length).run ⟨ParserContext.zero, ParserTx.zero⟩ = .ok () s' ∧
      s'.v.fields f.message = f := by
  obtain ⟨s', hrun, hholds⟩ := parserParse_of_message (Nat.le_refl f.message.length) hf (t := [])
    (by rw [Nat.mod_eq_of_lt hlen, List.take_length, List.append_nil]) ⟨ParserContext.zero, ParserTx.zero⟩
  exact ⟨s', hrun, hholds.fields_eq⟩

/-- The length of a message with the tag of the demo transaction. -/
theorem length_message_demo {f : TxFields} (hf : f.Acceptable) (htags : f.tags = Demo.tx.tags) :
    f.message.length =
      538 + f.target.length + f.quantity.length + f.reward.length + f.lastTx.length + f.dataSize.length +
        f.dataRoot.length := by
  have hformat : f.format.length = 1 := congrArg List.length hf.format
  have howner := hf.owner
  have htag : (f.tags.flatMap tagMessage).length = 7 := by
    rw [htags]
    rfl
  simp only [TxFields.message, List.length_append, length_prefixed, length_be16, htag]
  omega

end ValidationAux

open ValidationAux

/-- The two modes agree on a transaction that `parser_parse` accepted exactly when its data size is at most 200 and its data
root at most 150 bytes long, or the normal mode refuses it as well. -/
theorem parserValidate_modes_agree_iff (P : Platform) (mem : Mem) (n : Nat) (hn : n ≤ mem.length) (s s' : ParseState)
    (hparse : (parserParse mem (some 0) n).run s = .ok () s') (store : CryptoStore) :
    (parserValidate P mem store true s'.v = .ok () ↔ parserValidate P mem store false s'.v = .ok ()) ↔
      (s'.v.fields mem).ShownInExpert ∨ ¬(s'.v.fields mem).ShownNormally P store := by
  rw [validate_iff hn hparse, validate_iff hn hparse]
  constructor
  · intro h
    by_cases hs : (s'.v.fields mem).ShownNormally P store
    · exact Or.inl ((h.2 ⟨hs, fun hf => absurd hf (by decide)⟩).2 rfl)
    · exact Or.inr hs
  · rintro (hx | hs)
    · exact ⟨fun h => ⟨h.1, fun _ => hx⟩, fun h => ⟨h.1, fun _ => hx⟩⟩
    · exact iff_of_false (fun h => hs h.1) fun h => hs h.1

/-- The demo transaction, whose data size and data root are short. -/
theorem parserValidate_modes_agree_demo :
    ∃ s', (parserParse Demo.tx.message (some 0) Demo.tx.message.length).run ⟨ParserContext.zero, ParserTx.zero⟩ = .ok () s' ∧
      (parserValidate Demo.platform Demo.tx.message Demo.store true s'.v = .ok () ↔
        parserValidate Demo.platform Demo.tx.message Demo.store false s'.v = .ok ()) := by
  have hf : Demo.tx.Acceptable := ⟨rfl, List.length_replicate, by decide⟩
  obtain ⟨s', hrun, hfields⟩ := parse_demo hf (by rw [length_message_demo hf rfl]; decide)
  refine ⟨s', hrun, (parserValidate_modes_agree_iff Demo.platform _ _ (Nat.le_refl _) _ s' hrun Demo.store).2 (Or.inl ?_)⟩
  rw [hfields]
  exact ⟨by decide, by decide⟩

/-- A transaction with a data size of 201 bytes passes in normal mode and not in expert mode. -/
theorem not_parserValidate_modes_agree :
    let f := { Demo.tx with dataSize := List.replicate 201 48 }
    ∃ s', (parserParse f.message (some 0) f.message.length).run ⟨ParserContext.zero, ParserTx.zero⟩ = .ok () s' ∧
      parserValidate Demo.platform f.message Demo.store false s'.v = .ok () ∧
      parserValidate Demo.platform f.message Demo.store true s'.v ≠ .ok () := by
  intro f
  have hf : f.Acceptable := ⟨rfl, List.length_replicate, by decide⟩
  obtain ⟨s', hrun, hfields⟩ := parse_demo hf (by
    rw [length_message_demo hf rfl, List.length_replicate]
    decide)
  have hshown : f.ShownNormally Demo.platform Demo.store := shownNormally_demo rfl digits_demo (by decide) (by decide)
  refine ⟨s', hrun, ?_, ?_⟩
  · rw [validate_iff (Nat.le_refl _) hrun, hfields]
    exact ⟨hshown, fun hx => absurd hx (by decide)⟩
  · rw [ne_eq, validate_iff (Nat.le_refl _) hrun, hfields]
    intro h
    have hsize : (List.replicate 201 (48 : UInt8)).length ≤ 200 := (h.2 rfl).dataSize
    rw [List.length_replicate] at hsize
    omega

/-- With an owner that is the modulus of the slot in use, a transaction that `parser_parse` accepted passes when it is
displayable and fails when something of it cannot be shown, unless it is displayable and its target or its last transaction is
empty. -/
theorem parserValidate_displayable_iff (P : Platform) (hP : P.Formats) (mem : Mem) (n : Nat) (hn : n ≤ mem.length)
    (s s' : ParseState) (hparse : (parserParse mem (some 0) n).run s = .ok () s') (store : CryptoStore) (expert : Bool) :
    (((s'.v.fields mem).Displayable store expert → parserValidate P mem store expert s'.v = .ok ()) ∧
        ((s'.v.fields mem).Undisplayable expert → parserValidate P mem store expert s'.v ≠ .ok ())) ↔
      ¬((s'.v.fields mem).Displayable store expert ∧ ((s'.v.fields mem).target = [] ∨ (s'.v.fields mem).lastTx = [])) := by
  have hfails : (s'.v.fields mem).Undisplayable expert → parserValidate P mem store expert s'.v ≠ .ok () := by
    rintro hu hok
    obtain ⟨hs, hx⟩ := (validate_iff hn hparse store expert).1 hok
    rcases hu with ht | hl | ⟨he, hr | hd⟩ | ⟨b, hb, hdigit⟩
    · exact absurd hs.target.2 (Nat.not_le.2 ht)
    · exact absurd hs.lastTx.2 (Nat.not_le.2 hl)
    · exact absurd (hx he).dataRoot (Nat.not_le.2 hr)
    · exact absurd (hx he).dataSize (Nat.not_le.2 hd)
    · exact hdigit (digits_of_renders hP hs.quantity b hb)
  constructor
  · rintro ⟨hpass, -⟩ ⟨hd, hempty⟩
    obtain ⟨hs, -⟩ := (validate_iff hn hparse store expert).1 (hpass hd)
    rcases hempty with ht | hl
    · exact hs.target.1 ht
    · exact hs.lastTx.1 hl
  · intro h
    refine ⟨fun hd => (validate_iff hn hparse store expert).2 ⟨⟨hd.owner, ⟨?_, hd.target⟩, ?_, ?_, hd.lastTx⟩, hd.expert⟩,
      hfails⟩
    · exact fun ht => h ⟨hd, Or.inl ht⟩
    · exact renders_of_digits hP hd.quantity.2.1 hd.quantity.2.2
    · exact fun hl => h ⟨hd, Or.inr hl⟩

/-- The demo transaction, which is displayable and has a target and a last transaction. -/
theorem parserValidate_displayable_demo :
    ∃ s', (parserParse Demo.tx.message (some 0) Demo.tx.message.length).run ⟨ParserContext.zero, ParserTx.zero⟩ = .ok () s' ∧
      ((s'.v.fields Demo.tx.message).Displayable Demo.store true →
        parserValidate Demo.platform Demo.tx.message Demo.store true s'.v = .ok ()) := by
  have hf : Demo.tx.Acceptable := ⟨rfl, List.length_replicate, by decide⟩
  obtain ⟨s', hrun, hfields⟩ := parse_demo hf (by rw [length_message_demo hf rfl]; decide)
  refine ⟨s', hrun, ((parserValidate_displayable_iff Demo.platform Demo.platform_formats _ _ (Nat.le_refl _) _ s' hrun
    Demo.store true).2 ?_).1⟩
  rw [hfields]
  rintro ⟨-, ht | hl⟩
  · exact absurd ht (by decide)
  · exact absurd hl (by decide)

/-- A data transaction, which has no target, is displayable and does not pass. -/
theorem not_parserValidate_displayable :
    let f := { Demo.tx with target := [] }
    ∃ s', (parserParse f.message (some 0) f.message.length).run ⟨ParserContext.zero, ParserTx.zero⟩ = .ok () s' ∧
      (s'.v.fields f.message).Displayable Demo.store false ∧
      parserValidate Demo.platform f.message Demo.store false s'.v ≠ .ok () := by
  intro f
  have hf : f.Acceptable := ⟨rfl, List.length_replicate, by decide⟩
  obtain ⟨s', hrun, hfields⟩ := parse_demo hf (by rw [length_message_demo hf rfl]; decide)
  refine ⟨s', hrun, ?_, ?_⟩
  · rw [hfields]
    exact ⟨⟨rfl, rfl⟩, by decide, by decide, ⟨by decide, digits_demo⟩, fun hx => absurd hx (by decide)⟩
  · rw [ne_eq, validate_iff (Nat.le_refl _) hrun, hfields]
    exact fun h => h.1.target.1 rfl

end LedgerArweave
