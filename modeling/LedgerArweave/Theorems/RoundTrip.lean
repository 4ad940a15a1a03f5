import LedgerArweave.Parser.Accept
import LedgerArweave.Js.Encode

/-!
# The encoder of the host and the parser of the device are inverse
-/

namespace LedgerArweave

open Lib

namespace RoundTripAux

/-- `parser_parse` succeeds on an encoded transaction that a region opens with, whatever was parsed before. -/
theorem parserParse_encodeTx {tx : TxFields} (htx : tx.Acceptable) (hlen : (encodeTx tx).length < 65536)
    (rest : List UInt8) (s : ParseState) :
    ∃ s', (parserParse (encodeTx tx ++ rest) (some 0) (encodeTx tx).length).run s = .ok () s' ∧
      s'.v.Holds (encodeTx tx ++ rest) (encodeTx tx).length tx ∧ s'.c.offset = (encodeTx tx).length := by
  have hmsg := encodeTx_eq_message tx
  have hpos : 0 < (encodeTx tx).length := by
    rw [hmsg, TxFields.message, List.length_append, length_prefixed]
    omega
  have hmod : (encodeTx tx).length % 65536 = (encodeTx tx).length := Nat.mod_eq_of_lt hlen
  have hfits : (encodeTx tx).length ≤ (encodeTx tx ++ rest).length := by simp
  have hv : ({ s with c := ParserContext.initial (encodeTx tx).length } : ParseState).c.Valid (encodeTx tx ++ rest) :=
    ParserContext.initial_valid hfits
  have hunread : (ParserContext.initial (encodeTx tx).length).unread (encodeTx tx ++ rest) = tx.message ++ [] := by
    simp only [ParserContext.unread, ParserContext.initial, hmod, List.drop_zero, List.take_left', List.append_nil]
    exact hmsg
  obtain ⟨s', hread, hholds, hrest⟩ := read_of_message hv htx hunread
  have hparse : (parserParse (encodeTx tx ++ rest) (some 0) (encodeTx tx).length).run s = .ok () s' := by
    rw [run_parserParse, if_neg (by omega), if_neg (by omega)]
    exact hread
  refine ⟨s', hparse, ?_, ?_⟩
  · simpa only [ParserContext.initial, hmod] using hholds
  · -- nothing is left unread, so the offset is at the end of the buffer
    obtain ⟨f, -, -, hv', hb, -⟩ := parserParse_ok hfits hparse
    have hunread' := hv'.length_unread
    rw [hrest, hb, hmod] at hunread'
    have hin := hv'.inside
    rw [hb, hmod] at hin
    simp only [List.length_nil] at hunread'
    omega

/-- A message with a byte behind it. -/
theorem length_message_oneTag : (TxFields.oneTag.message ++ [9]).length < 65536 := by
  simp only [TxFields.oneTag, TxFields.message, tagMessage, List.length_append, length_prefixed, length_be16,
    List.length_replicate, List.flatMap_cons, List.flatMap_nil]
  decide

end RoundTripAux

/-- The encoder and the parser are inverse, whatever the parser worked on before and whatever follows the buffer in memory.
1. `parser_parse` accepts the encoding of every transaction it is meant for, the object then shows each field and the tags in
   order, and the whole buffer is consumed.
2. What `parser_parse` consumes of a buffer it accepts is the encoding of the content the object shows. -/
theorem encodeTx_parserParse_inverse :
    (∀ (tx : TxFields), tx.format = ascii "2" → tx.owner.length = 512 → tx.tags.length ≤ 16 →
      (encodeTx tx).length < 65536 → ∀ (rest : List UInt8) (s : ParseState),
      ∃ s', (parserParse (encodeTx tx ++ rest) (some 0) (encodeTx tx).length).run s = .ok () s' ∧
        s'.v.Holds (encodeTx tx ++ rest) (encodeTx tx).length tx ∧ s'.v.fields (encodeTx tx ++ rest) = tx ∧
        s'.c.offset = (encodeTx tx).length) ∧
    (∀ (mem : Mem) (n : Nat), n ≤ mem.length → n < 65536 → ∀ (s s' : ParseState),
      (parserParse mem (some 0) n).run s = .ok () s' →
      mem.take s'.c.offset = encodeTx (s'.v.fields mem) ∧ s'.c.offset ≤ n) := by
  constructor
  · intro tx hformat howner htags hlen rest s
    obtain ⟨s', hparse, hholds, hoff⟩ := RoundTripAux.parserParse_encodeTx ⟨hformat, howner, htags⟩ hlen rest s
    exact ⟨s', hparse, hholds, hholds.fields_eq, hoff⟩
  · intro mem n hn hsmall s s' hparse
    obtain ⟨f, -, hholds, hv, hb, hmsg⟩ := parserParse_ok hn hparse
    have hin := hv.inside
    rw [hb, Nat.mod_eq_of_lt hsmall] at hin
    exact ⟨by rw [hmsg, hholds.fields_eq, encodeTx_eq_message], hin⟩

/-- The two directions on a transaction with one tag. -/
theorem encodeTx_parserParse_inverse_one_tag :
    ∃ s', (parserParse (encodeTx TxFields.oneTag ++ [9]) (some 0) (encodeTx TxFields.oneTag).length).run
        ⟨ParserContext.zero, ParserTx.zero⟩ = .ok () s' ∧
      s'.v.fields (encodeTx TxFields.oneTag ++ [9]) = TxFields.oneTag ∧
      (encodeTx TxFields.oneTag ++ [9]).take s'.c.offset =
        encodeTx (s'.v.fields (encodeTx TxFields.oneTag ++ [9])) := by
  have hfits : (encodeTx TxFields.oneTag).length ≤ (encodeTx TxFields.oneTag ++ [9]).length := by
    rw [List.length_append]
    exact Nat.le_add_right _ _
  obtain ⟨s', hparse, -, hfields, -⟩ := encodeTx_parserParse_inverse.1 TxFields.oneTag rfl List.length_replicate
    (by decide) TxFields.length_encodeTx_oneTag [9] ⟨ParserContext.zero, ParserTx.zero⟩
  exact ⟨s', hparse, hfields, (encodeTx_parserParse_inverse.2 _ _ hfits TxFields.length_encodeTx_oneTag _ s' hparse).1⟩

/-! ## What is accepted -/

/-- `parser_parse` accepts a buffer when the documented message of a transaction of format 2, with an owner of 512 bytes and at
most 16 tags, opens the buffer, and it accepts no other buffer. What follows the message is not looked at. -/
theorem parserParse_accepts_iff (mem : Mem) (n : Nat) (hn : n ≤ mem.length) (hsmall : n < 65536) (s : ParseState) :
    (∃ s', (parserParse mem (some 0) n).run s = .ok () s') ↔
      ∃ (f : TxFields) (rest : List UInt8), f.Acceptable ∧ mem.take n = f.message ++ rest := by
  have hmod : n % 65536 = n := Nat.mod_eq_of_lt hsmall
  constructor
  · rintro ⟨s', hparse⟩
    obtain ⟨f, hf, -, hv, hlen, hmsg⟩ := parserParse_ok hn hparse
    refine ⟨f, (mem.take n).drop s'.c.offset, hf, ?_⟩
    have hin : s'.c.offset ≤ n := by
      rw [← hmod, ← hlen]
      exact hv.inside
    have hcut := List.take_append_drop s'.c.offset (mem.take n)
    rw [List.take_take, Nat.min_eq_left hin, hmsg] at hcut
    exact hcut.symm
  · rintro ⟨f, rest, hf, hmsg⟩
    obtain ⟨s', hparse, -⟩ := parserParse_of_message hn hf (t := rest) (by rw [hmod, hmsg]) s
    exact ⟨s', hparse⟩

/-- A buffer that holds a message and a byte more is accepted. -/
theorem parserParse_accepts_iff_one_byte_more :
    ∃ s', (parserParse (TxFields.oneTag.message ++ [9]) (some 0) (TxFields.oneTag.message ++ [9]).length).run
      ⟨ParserContext.zero, ParserTx.zero⟩ = .ok () s' := by
  exact (parserParse_accepts_iff _ _ (Nat.le_refl _) RoundTripAux.length_message_oneTag _).2
    ⟨TxFields.oneTag, [9], TxFields.oneTag_acceptable, List.take_length⟩

/-- Not only the documented messages are accepted: a message and a byte more are no message. -/
theorem not_parserParse_accepts_messages_only :
    ¬∀ (mem : Mem) (n : Nat), n ≤ mem.length → 1 ≤ n → n < 65536 → ∀ s : ParseState,
      ((∃ s', (parserParse mem (some 0) n).run s = .ok () s') ↔
        ∃ f : TxFields, f.Acceptable ∧ mem.take n = f.message) := by
  intro h
  have hlen := RoundTripAux.length_message_oneTag
  have hmod := Nat.mod_eq_of_lt hlen
  have hpos : 1 ≤ (TxFields.oneTag.message ++ [9]).length := by
    simp only [List.length_append, List.length_cons, List.length_nil]
    omega
  obtain ⟨s', hparse, -⟩ := parserParse_of_message (Nat.le_refl (TxFields.oneTag.message ++ [9]).length)
    TxFields.oneTag_acceptable (t := [9]) (by rw [hmod, List.take_length]) ⟨ParserContext.zero, ParserTx.zero⟩
  obtain ⟨f, -, hmsg⟩ := (h _ _ (Nat.le_refl _) hpos hlen _).1 ⟨s', hparse⟩
  rw [List.take_length, ← List.append_nil f.message] at hmsg
  have hrest := (message_append_inj hlen hmsg).2
  cases hrest

end LedgerArweave
