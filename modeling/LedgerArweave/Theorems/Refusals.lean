import LedgerArweave.Demo
import LedgerArweave.Parser.Decode
import LedgerArweave.Parser.Items
import LedgerArweave.Session

/-!
# Why a transaction is refused

`tx_parse` stops at the first check that fails, in the parser or in the validation. Which one that is depends on the bytes of the
buffer, the key in use and the mode alone: `refusalOf` finds it by the decoder and the items of what it decodes, without a
region, a context or an earlier transaction. Of a buffer that opens with the message of a transaction it is `TxFields.refusal`.
-/

namespace LedgerArweave

open Lib

/-- The error of the first item that has no text. -/
def firstError : List Item → Option ParserError
  | [] => none
  | item :: items =>
    match item.text with
    | .error e => some e
    | .ok _ => firstError items

instance (store : CryptoStore) (owner : List UInt8) : Decidable (OwnerInUse store owner) := inferInstanceAs (Decidable (_ ∧ _))

/-- The first check of `parser_validate` that a transaction fails. -/
def TxFields.reviewError (P : Platform) (store : CryptoStore) (expert : Bool) (f : TxFields) : Option ParserError :=
  if OwnerInUse store f.owner then firstError (f.items P expert) else some .unexpectedError

/-- The error a transaction is refused with, if any. -/
def TxFields.refusal (P : Platform) (store : CryptoStore) (expert : Bool) (f : TxFields) : Option ParserError :=
  f.formError.or (f.reviewError P store expert)

/-- The error the bytes of a buffer are refused with, if any. -/
def refusalOf (P : Platform) (store : CryptoStore) (expert : Bool) (content : List UInt8) : Option ParserError :=
  match decodeTx content with
  | .error e => some e
  | .ok f => f.reviewError P store expert

/-- The error `tx_parse` returns, if any. -/
def txParseError (r : EStateM.Result ParserError Upload Unit) : Option ParserError :=
  match r with
  | .ok _ _ => none
  | .error e _ => some e

namespace RefusalsAux

/-! ## The validation -/

section

variable {P : Platform} {mem : Mem} {n : Nat} {f : TxFields} {v : ParserTx} {store : CryptoStore}

/-- The loop of `parser_validate` stops at the first item without a text. The induction is on the items left. -/
theorem validateItems_refused (h : v.Holds mem n f) (htags : f.tags.length ≤ 16) {expert : Bool} {e : ParserError} :
    ∀ (items before : List Item) (o : ItemOut), f.items P expert = before ++ items → firstError items = some e →
      ∃ o', (validateItems P mem expert v items.length before.length).run o = .error e o' := by
  intro items
  induction items with
  | nil => exact fun _ _ _ he => absurd he nofun
  | cons item items ih =>
    intro before o hitems he
    have hi : (f.items P expert)[before.length]? = some item := by
      rw [hitems, List.getElem?_append_right (Nat.le_refl _), Nat.sub_self, List.getElem?_cons_zero]
    have hprint := printsItem_parserGetItem h htags hi tmpLen tmpLen 0
    rw [List.length_cons, validateItems]
    rw [firstError] at he
    cases htext : item.text with
    | error e' =>
      rw [htext] at he
      cases he
      obtain ⟨o', hrun⟩ := hprint.error e htext o
      exact ⟨o', run_bind_of_error hrun _⟩
    | ok text =>
      rw [htext] at he
      obtain ⟨key, -, hrun⟩ := hprint.ok text htext o
      have hrest := ih (before ++ [item]) ⟨key, (P.pageStringExt tmpLen text 0).1, (P.pageStringExt tmpLen text 0).2⟩
        (by rw [hitems, List.append_assoc, List.singleton_append]) he
      rw [List.length_append, List.length_singleton] at hrest
      rwa [run_bind_of_ok hrun]

theorem firstError_eq_none_iff {items : List Item} : firstError items = none ↔ ∀ item ∈ items, item.Shown := by
  induction items with
  | nil => exact iff_of_true rfl nofun
  | cons item items ih =>
    rw [firstError, List.forall_mem_cons, ← ih, Item.Shown]
    cases item.text with
    | error e => exact iff_of_false nofun fun h => by obtain ⟨_, h⟩ := h.1; cases h
    | ok text => exact ⟨fun h => ⟨⟨text, rfl⟩, h⟩, fun h => h.2⟩

/-- The owner is compared half by half, and every failure is the same error. -/
theorem validateTx_error {e : ParserError} (h : validateTx mem store v = .error e) : e = .unexpectedError := by
  have half : ∀ {i e}, validateOwnerHalf mem store v i = .error e → e = .unexpectedError := by
    intro i e h
    unfold validateOwnerHalf at h
    split at h
    · cases h
      rfl
    split at h
    · cases h
      rfl
    · cases h
  unfold validateTx at h
  cases h0 : validateOwnerHalf mem store v 0 with
  | error e' =>
    rw [h0] at h
    cases h
    exact half h0
  | ok _ =>
    rw [h0] at h
    exact half h

/-- `parser_validate` returns the error of the first check that fails. -/
theorem parserValidate_eq (h : v.Holds mem n f) (hf : f.Acceptable) (expert : Bool) :
    parserValidate P mem store expert v =
      match f.reviewError P store expert with
      | none => .ok ()
      | some e => .error e := by
  have howner : validateTx mem store v = .ok () ↔ OwnerInUse store f.owner := validateTx_ok_iff h.owner hf.owner
  unfold TxFields.reviewError
  split
  · -- nothing fails
    rename_i hnone
    refine (parserValidate_ok_iff h hf).2 ?_
    split at hnone
    · rename_i hin
      exact ⟨hin, firstError_eq_none_iff.1 hnone⟩
    · cases hnone
  · rename_i e hsome
    unfold parserValidate
    split at hsome
    · rename_i hin
      obtain ⟨o', hrun⟩ := validateItems_refused h hf.tags (f.items P expert) []
        ⟨List.replicate tmpLen 0, List.replicate tmpLen 0, 0⟩ rfl hsome
      rw [← getNumItems_eq h hf.tags, List.length_nil] at hrun
      rw [howner.2 hin]
      simp only [bind, Except.bind, hrun]
    · rename_i hout
      cases hsome
      cases htx : validateTx mem store v with
      | ok _ => exact absurd (howner.1 htx) hout
      | error e =>
        rw [validateTx_error htx]
        rfl

end

/-! ## `tx_parse` -/

section

variable {P : Platform} {store : CryptoStore} {expert : Bool} {u : Upload}

/-- `tx_parse` by the decoder. -/
theorem run_txParse_decodes (P : Platform) (store : CryptoStore) (expert : Bool) (hvalid : u.buffering.Valid)
    (hsmall : u.buffering.data.length < 65536) :
    match decodeTx u.buffering.content with
    | .error e => ∃ u', (txParse P store expert).run u = .error e u'
    | .ok f => ∃ u' : Upload, u'.parserTxObj.Holds u.buffering.data u.buffering.pos f ∧ f.Acceptable ∧
        (txParse P store expert).run u =
          match f.reviewError P store expert with
          | none => .ok () u'
          | some e => .error e u' := by
  have hparse := parserParse_decodes hvalid.pos_le (Nat.lt_of_le_of_lt hvalid.pos_le hsmall) u.parser
  rw [run_txParse]
  unfold Buffering.content
  cases hdecode : decodeTx (u.buffering.data.take u.buffering.pos) with
  | error e =>
    rw [hdecode] at hparse
    obtain ⟨s', hrun⟩ := hparse
    rw [hrun]
    exact ⟨_, rfl⟩
  | ok f =>
    rw [hdecode] at hparse
    obtain ⟨p, hrun, hholds, hf⟩ := hparse
    rw [hrun]
    simp only [parserValidate_eq hholds hf expert]
    refine ⟨Upload.setParser p { u with txObj := ParserTx.zero }, hholds, hf, ?_⟩
    cases f.reviewError P store expert <;> rfl

theorem txParseError_eq (hvalid : u.buffering.Valid) (hsmall : u.buffering.data.length < 65536) :
    txParseError ((txParse P store expert).run u) = refusalOf P store expert u.buffering.content := by
  have hparse := run_txParse_decodes P store expert hvalid hsmall
  unfold refusalOf
  cases hdecode : decodeTx u.buffering.content with
  | error e =>
    rw [hdecode] at hparse
    obtain ⟨u', hrun⟩ := hparse
    rw [hrun]
    rfl
  | ok f =>
    rw [hdecode] at hparse
    obtain ⟨u', -, -, hrun⟩ := hparse
    rw [hrun]
    cases hreview : f.reviewError P store expert <;> simp only [txParseError, hreview]

/-- The bytes that open with the message of a transaction are refused for what is wrong with the transaction. -/
theorem refusalOf_message {f : TxFields} {rest : List UInt8} (hlen : (f.message ++ rest).length < 65536) :
    refusalOf P store expert (f.message ++ rest) = f.refusal P store expert := by
  have hne : f.message ++ rest ≠ [] := by
    simp [TxFields.message, prefixed, be16]
  rw [refusalOf, decodeTx, if_neg hne, DecodeAux.codeOf_takeFields hlen, TxFields.refusal]
  cases f.formError <;> rfl

end

end RefusalsAux

open RefusalsAux

/-- For every buffer of less than 65536 bytes, whatever these are and whatever was parsed before: `tx_parse` returns the error that
the decoder, the key and the mode determine. It succeeds when there is none; then the buffer opens with the message of the
transaction that the decoder found, the object shows this transaction, and the buffer is as it was. -/
theorem txParse_decodes (P : Platform) (store : CryptoStore) (expert : Bool) (u : Upload) (hvalid : u.buffering.Valid)
    (hsmall : u.buffering.data.length < 65536) :
    txParseError ((txParse P store expert).run u) = refusalOf P store expert u.buffering.content ∧
      ∀ u', (txParse P store expert).run u = .ok () u' →
        ∃ f rest, decodeTx u.buffering.content = .ok f ∧ u.buffering.content = f.message ++ rest ∧ u'.fields = f ∧
          u'.buffering = u.buffering := by
  refine ⟨txParseError_eq hvalid hsmall, fun u' hok => ?_⟩
  have hparse := run_txParse_decodes P store expert hvalid hsmall
  cases hdecode : decodeTx u.buffering.content with
  | error e =>
    rw [hdecode] at hparse
    obtain ⟨u'', hrun⟩ := hparse
    rw [hrun] at hok
    cases hok
  | ok f =>
    rw [hdecode] at hparse
    obtain ⟨u'', hholds, -, hrun⟩ := hparse
    obtain ⟨rest, hmsg⟩ := DecodeAux.message_of_decodeTx hdecode
    have hbuffering := (txParse_frame P store expert (Or.inl hok)).1
    rw [hrun] at hok
    cases hreview : f.reviewError P store expert with
    | some e =>
      rw [hreview] at hok
      cases hok
    | none =>
      rw [hreview] at hok
      cases hok
      refine ⟨f, rest, rfl, hmsg, ?_, hbuffering⟩
      rw [Upload.fields, hbuffering]
      exact hholds.fields_eq

/-- A buffer that is cut in the owner: the format is there, and two bytes of the owner. -/
theorem txParse_decodes_cut :
    txParseError ((txParse Demo.platform Demo.store false).run
      ⟨true, ⟨[0, 1, 50, 2, 0, 7, 7], 7, 7⟩, ParserContext.zero, ParserTx.zero, ParserTx.zero⟩) = some .unexpectedBufferEnd := by
  have hdecodes := txParse_decodes Demo.platform Demo.store false
    ⟨true, ⟨[0, 1, 50, 2, 0, 7, 7], 7, 7⟩, ParserContext.zero, ParserTx.zero, ParserTx.zero⟩
    ⟨Nat.le_refl _, Nat.le_refl _⟩ (by decide)
  have hrefusal : refusalOf Demo.platform Demo.store false [0, 1, 50, 2, 0, 7, 7] = some .unexpectedBufferEnd := by
    decide +kernel
  exact hdecodes.1.trans hrefusal

end LedgerArweave
