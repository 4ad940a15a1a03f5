import LedgerArweave.Lib.Coupled
import LedgerArweave.Lib.Simulates
import LedgerArweave.Parser.Accept

/-!
# A decoder of transactions

What a buffer says, as a function of the list of its bytes: no region, no pointers, and no object that keeps what was read. The
decoder takes the bytes of a field off the front of the list and stops at the first check that fails. `parser_parse` and the
decoder come to the same on every buffer, also when they stop (`parserParse_decodes`).
-/

namespace LedgerArweave

open Lib

abbrev Decoder : Type → Type := EStateM ParserError (List UInt8)

/-- A number of two bytes. -/
def takeNumber : Decoder Nat
  | hi :: lo :: rest => .ok (ofBe16 hi lo) rest
  | bytes => .error .unexpectedBufferEnd bytes

/-- Some bytes. -/
def takeBytes (n : Nat) : Decoder (List UInt8) := fun bytes =>
  if n ≤ bytes.length then .ok (bytes.take n) (bytes.drop n) else .error .unexpectedBufferEnd bytes

/-- A field behind its length. -/
def takeField : Decoder (List UInt8) := do
  let n ← takeNumber
  takeBytes n

/-- Go on if a condition holds. -/
def expect (c : Prop) [Decidable c] (e : ParserError) : Decoder Unit := if c then pure () else throw e

/-- A tag, its name and its value. -/
def takeTag : Decoder (List UInt8 × List UInt8) := do
  let name ← takeField
  let value ← takeField
  return (name, value)

/-- Some tags. -/
def takeTags : Nat → Decoder (List (List UInt8 × List UInt8))
  | 0 => pure []
  | n + 1 => do
    let tag ← takeTag
    let tags ← takeTags n
    return tag :: tags

/-- The fields of a transaction. -/
def takeFields : Decoder TxFields := do
  let format ← takeField
  expect (format = [50]) .unexpectedTxVersion
  let owner ← takeField
  expect (owner.length = 512) .unexpectedTxVersion
  let target ← takeField
  let quantity ← takeField
  let reward ← takeField
  let lastTx ← takeField
  let count ← takeNumber
  expect (count ≤ maxNumberTags) .valueOutOfRange
  let tags ← takeTags count
  let dataSize ← takeField
  let dataRoot ← takeField
  return ⟨format, owner, target, quantity, reward, lastTx, tags, dataSize, dataRoot⟩

/-- The transaction that a buffer opens with, or the error of the first check that fails. -/
def decodeTx (content : List UInt8) : Except ParserError TxFields :=
  if content = [] then .error .noData else codeOf (takeFields.run content)

/-- The first check of the decoder that a transaction fails. -/
def TxFields.formError (f : TxFields) : Option ParserError :=
  if f.format ≠ [50] then some .unexpectedTxVersion
  else if f.owner.length ≠ 512 then some .unexpectedTxVersion
  else if maxNumberTags < f.tags.length then some .valueOutOfRange
  else none

namespace DecodeAux

/-! ## What the decoder takes -/

/-- A field in front of some bytes is taken from them. -/
theorem run_takeField_prefixed {f : List UInt8} (hf : f.length < 65536) (t : List UInt8) :
    takeField.run (prefixed f ++ t) = .ok f t := by
  have hnumber : takeNumber.run (prefixed f ++ t) = .ok f.length (f ++ t) := by
    change EStateM.Result.ok _ _ = _
    rw [ofBe16_be16 hf]
    rfl
  unfold takeField
  rw [run_bind_of_ok hnumber]
  change (if f.length ≤ (f ++ t).length then _ else _) = _
  rw [if_pos (by simp), List.take_left, List.drop_left]

/-- The same for a number. -/
theorem run_takeNumber_be16 {n : Nat} (hn : n < 65536) (t : List UInt8) : takeNumber.run (be16 n ++ t) = .ok n t := by
  change EStateM.Result.ok _ _ = _
  rw [ofBe16_be16 hn]
  rfl

/-- Only a number is taken for a number. -/
theorem takeNumber_ok {l t : List UInt8} {n : Nat} (h : takeNumber.run l = .ok n t) : l = be16 n ++ t ∧ n < 65536 := by
  match l with
  | [] => cases h
  | [_] => cases h
  | hi :: lo :: rest =>
    cases h
    exact ⟨by rw [be16_ofBe16]; rfl, ofBe16_lt hi lo⟩

/-- Only a field is taken for a field. -/
theorem takeField_ok {l t f : List UInt8} (h : takeField.run l = .ok f t) : l = prefixed f ++ t ∧ f.length < 65536 := by
  obtain ⟨n, l₁, h1, h2⟩ := run_bind_eq_ok.1 h
  obtain ⟨rfl, hn⟩ := takeNumber_ok h1
  change (if n ≤ l₁.length then _ else _) = _ at h2
  split at h2
  · rename_i hle
    cases h2
    have hlen : (l₁.take n).length = n := List.length_take_of_le hle
    exact ⟨by rw [prefixed, hlen, List.append_assoc, List.take_append_drop], by rwa [hlen]⟩
  · cases h2

/-- A check takes nothing. -/
theorem run_expect (c : Prop) [Decidable c] (e : ParserError) (l : List UInt8) :
    (expect c e).run l = if c then .ok () l else .error e l := by
  unfold expect
  split <;> rfl

/-- What follows a condition is decoded only when it holds. -/
theorem expect_bind_ok {c : Prop} [Decidable c] {e : ParserError} {α : Type} {k : Unit → Decoder α} {l t : List UInt8} {a : α}
    (h : (expect c e >>= k).run l = .ok a t) : c ∧ (k ()).run l = .ok a t := by
  obtain ⟨_, l₁, h1, h2⟩ := run_bind_eq_ok.1 h
  rw [run_expect] at h1
  split at h1
  · rename_i hc
    cases h1
    exact ⟨hc, h2⟩
  · cases h1

/-- Only a tag is taken for a tag. -/
theorem takeTag_ok {l t : List UInt8} {tag : List UInt8 × List UInt8} (h : takeTag.run l = .ok tag t) :
    l = tagMessage tag ++ t := by
  obtain ⟨name, l₁, h1, h⟩ := run_bind_eq_ok.1 h
  obtain ⟨value, l₂, h2, h⟩ := run_bind_eq_ok.1 h
  cases h
  obtain ⟨rfl, -⟩ := takeField_ok h1
  obtain ⟨rfl, -⟩ := takeField_ok h2
  rw [tagMessage, List.append_assoc]

/-- Tags that were taken are as many as asked for, by induction on this number. -/
theorem takeTags_ok : ∀ (n : Nat) {l t : List UInt8} {tags : List (List UInt8 × List UInt8)},
    (takeTags n).run l = .ok tags t → l = tags.flatMap tagMessage ++ t ∧ tags.length = n := by
  intro n
  induction n with
  | zero =>
    intro l t tags h
    cases h
    exact ⟨rfl, rfl⟩
  | succ n ih =>
    intro l t tags h
    obtain ⟨tag, l₁, h1, h⟩ := run_bind_eq_ok.1 h
    obtain ⟨rest, l₂, h2, h⟩ := run_bind_eq_ok.1 h
    cases h
    obtain rfl := takeTag_ok h1
    obtain ⟨rfl, hlen⟩ := ih h2
    exact ⟨by rw [List.flatMap_cons, List.append_assoc], by rw [List.length_cons, hlen]⟩

/-- What the decoder finds opens the bytes, and is a transaction the parser is meant for. -/
theorem takeFields_ok {l t : List UInt8} {f : TxFields} (h : takeFields.run l = .ok f t) :
    l = f.message ++ t ∧ f.Acceptable := by
  obtain ⟨format, l₁, h1, h⟩ := run_bind_eq_ok.1 h
  obtain ⟨hformat, h⟩ := expect_bind_ok h
  obtain ⟨owner, l₂, h2, h⟩ := run_bind_eq_ok.1 h
  obtain ⟨howner, h⟩ := expect_bind_ok h
  obtain ⟨target, l₃, h3, h⟩ := run_bind_eq_ok.1 h
  obtain ⟨quantity, l₄, h4, h⟩ := run_bind_eq_ok.1 h
  obtain ⟨reward, l₅, h5, h⟩ := run_bind_eq_ok.1 h
  obtain ⟨lastTx, l₆, h6, h⟩ := run_bind_eq_ok.1 h
  obtain ⟨count, l₇, h7, h⟩ := run_bind_eq_ok.1 h
  obtain ⟨hcount, h⟩ := expect_bind_ok h
  obtain ⟨tags, l₈, h8, h⟩ := run_bind_eq_ok.1 h
  obtain ⟨dataSize, l₉, h9, h⟩ := run_bind_eq_ok.1 h
  obtain ⟨dataRoot, l₁₀, h10, h⟩ := run_bind_eq_ok.1 h
  cases h
  obtain ⟨rfl, -⟩ := takeField_ok h1
  obtain ⟨rfl, -⟩ := takeField_ok h2
  obtain ⟨rfl, -⟩ := takeField_ok h3
  obtain ⟨rfl, -⟩ := takeField_ok h4
  obtain ⟨rfl, -⟩ := takeField_ok h5
  obtain ⟨rfl, -⟩ := takeField_ok h6
  obtain ⟨rfl, -⟩ := takeNumber_ok h7
  obtain ⟨rfl, htags⟩ := takeTags_ok count h8
  obtain ⟨rfl, -⟩ := takeField_ok h9
  obtain ⟨rfl, -⟩ := takeField_ok h10
  refine ⟨?_, hformat, howner, ?_⟩
  · simp only [TxFields.message, htags, List.append_assoc]
  · change tags.length ≤ 16
    rw [htags]
    exact hcount

/-- What the decoder finds opens the buffer. -/
theorem message_of_decodeTx {content : List UInt8} {f : TxFields} (h : decodeTx content = .ok f) :
    ∃ rest, content = f.message ++ rest := by
  unfold decodeTx at h
  split at h
  · cases h
  cases hrun : takeFields.run content with
  | error e t =>
    rw [hrun] at h
    cases h
  | ok f' t =>
    rw [hrun] at h
    cases h
    exact ⟨t, (takeFields_ok hrun).1⟩

/-- Where the bytes open with tags, they are taken. -/
theorem run_takeTags_append : ∀ (tags : List (List UInt8 × List UInt8)) (t : List UInt8),
    (∀ x ∈ tags, x.1.length < 65536 ∧ x.2.length < 65536) →
    (takeTags tags.length).run (tags.flatMap tagMessage ++ t) = .ok tags t := by
  intro tags
  induction tags with
  | nil => exact fun t _ => rfl
  | cons x tags ih =>
    intro t hx
    obtain ⟨hname, hvalue⟩ := hx x List.mem_cons_self
    have htag : ∀ rest, takeTag.run (tagMessage x ++ rest) = .ok x rest := by
      intro rest
      rw [tagMessage, List.append_assoc, takeTag, run_bind_of_ok (run_takeField_prefixed hname _),
        run_bind_of_ok (run_takeField_prefixed hvalue _)]
      rfl
    rw [List.flatMap_cons, List.append_assoc, List.length_cons, takeTags, run_bind_of_ok (htag _),
      run_bind_of_ok (ih t fun y hy => hx y (List.mem_cons_of_mem _ hy))]
    rfl

/-- On the message of a transaction, whatever follows it, the decoder finds the transaction or the first check that it fails. -/
theorem codeOf_takeFields {f : TxFields} {t : List UInt8} (hlen : (f.message ++ t).length < 65536) :
    codeOf (takeFields.run (f.message ++ t)) =
      match f.formError with
      | none => .ok f
      | some e => .error e := by
  have htags := length_flatMap_tagMessage f.tags
  have heach : ∀ x ∈ f.tags, x.1.length < 65536 ∧ x.2.length < 65536 := by
    intro x hx
    have := length_tagMessage_le hx
    simp only [TxFields.message, List.length_append] at hlen
    omega
  simp only [TxFields.message, List.length_append, length_prefixed, length_be16] at hlen
  simp only [TxFields.message, List.append_assoc]
  unfold takeFields TxFields.formError
  rw [run_bind_of_ok (run_takeField_prefixed (by omega) _)]
  by_cases hformat : f.format = [50]
  · rw [run_bind_of_ok ((run_expect _ _ _).trans (if_pos hformat)), run_bind_of_ok (run_takeField_prefixed (by omega) _),
      if_neg (not_not.2 hformat)]
    by_cases howner : f.owner.length = 512
    · rw [run_bind_of_ok ((run_expect _ _ _).trans (if_pos howner)), run_bind_of_ok (run_takeField_prefixed (by omega) _),
        run_bind_of_ok (run_takeField_prefixed (by omega) _), run_bind_of_ok (run_takeField_prefixed (by omega) _),
        run_bind_of_ok (run_takeField_prefixed (by omega) _), run_bind_of_ok (run_takeNumber_be16 (by omega) _),
        if_neg (not_not.2 howner)]
      by_cases hcount : f.tags.length ≤ maxNumberTags
      · rw [run_bind_of_ok ((run_expect _ _ _).trans (if_pos hcount)), run_bind_of_ok (run_takeTags_append _ _ heach),
          run_bind_of_ok (run_takeField_prefixed (by omega) _), run_bind_of_ok (run_takeField_prefixed (by omega) _),
          if_neg (Nat.not_lt.2 hcount)]
        rfl
      · rw [run_bind_of_error ((run_expect _ _ _).trans (if_neg hcount)), if_pos (Nat.lt_of_not_le hcount)]
        rfl
    · rw [run_bind_of_error ((run_expect _ _ _).trans (if_neg howner)), if_pos howner]
      rfl
  · rw [run_bind_of_error ((run_expect _ _ _).trans (if_neg hformat)), if_pos hformat]
    rfl

/-! ## The readers -/

section

variable {mem : Mem}

/-- A reader and a decoder with the same bytes in front of them. -/
structure Front (mem : Mem) (s : ParseState) (bytes : List UInt8) : Prop where
  valid : s.c.Valid mem
  unread : s.c.unread mem = bytes

/-- A number can only be cut off. -/
theorem takeNumber_error {l t : List UInt8} {e : ParserError} (h : takeNumber.run l = .error e t) : e = .unexpectedBufferEnd := by
  match l with
  | [] | [_] =>
    cases h
    rfl
  | _ :: _ :: _ => cases h

/-- So can a field. -/
theorem takeField_error {l t : List UInt8} {e : ParserError} (h : takeField.run l = .error e t) : e = .unexpectedBufferEnd := by
  rcases run_bind_eq_error.1 h with h | ⟨n, l₁, -, h⟩
  · exact takeNumber_error h
  · change (if n ≤ l₁.length then _ else _) = _ at h
    split at h
    · cases h
    · cases h
      rfl

/-- And so can an element for the parser. -/
theorem readElement_error {l : ElementLoc} (hl : l.InBounds) {s s' : ParseState} (hv : s.c.Valid mem) {e : ParserError}
    (h : (parserReadElement mem l).run s = .error e s') : e = .unexpectedBufferEnd := by
  rw [run_parserReadElement mem hl hv.small] at h
  split at h
  · split at h
    · cases h
    · cases h
      rfl
  · cases h
    rfl

/-- An element is read when the field in front can be taken, and shows it. -/
theorem simulates_readElement {l : ElementLoc} (hl : l.InBounds) :
    Simulates (Front mem) (parserReadElement mem l) takeField
      fun _ f s bytes => Front mem s bytes ∧ ∃ n, Shows mem n (s.v.element l) f := by
  rintro s bytes ⟨hv, rfl⟩
  cases htake : takeField.run (s.c.unread mem) with
  | ok f t =>
    obtain ⟨hu, hf⟩ := takeField_ok htake
    obtain ⟨s', hrun, hr, ht⟩ := readElement_of_prefixed l hl hv hf hu
    exact Or.inl ⟨(), f, s', t, hrun, rfl, ⟨hr.valid, ht⟩, _, hr.shows⟩
  | error e t =>
    cases hrun : (parserReadElement mem l).run s with
    | ok u s' =>
      obtain ⟨f, hf, hr⟩ := readElement_ok l hl hv hrun
      rw [hr.rest, run_takeField_prefixed hf] at htake
      cases htake
    | error e' s' =>
      rw [takeField_error htake, readElement_error hl hv hrun]
      exact Or.inr ⟨_, _, _, rfl, rfl⟩

/-- The tag count is read when a number can be taken. -/
theorem simulates_readTagsCount :
    Simulates (Front mem) (parserReadU16 mem .tagsCount) takeNumber
      fun _ n s bytes => Front mem s bytes ∧ s.v.tagsCount = n := by
  rintro s bytes ⟨hv, rfl⟩
  cases htake : takeNumber.run (s.c.unread mem) with
  | ok n t =>
    obtain ⟨hu, hn⟩ := takeNumber_ok htake
    obtain ⟨s', hrun, hcount, ht⟩ := readTagsCount_of_be16 hv hn hu
    exact Or.inl ⟨(), n, s', t, hrun, rfl, ⟨(readTagsCount_ok hv hrun).1, ht⟩, hcount⟩
  | error e t =>
    rw [takeNumber_error htake, run_parserReadU16 mem _ hv.small]
    split
    · rename_i h2
      obtain ⟨hi, lo, hu⟩ := hv.unread_cons h2
      rw [hu] at htake
      cases htake
    · exact Or.inr ⟨_, _, _, rfl, rfl⟩

/-- A check of the object and the condition it stands for. -/
theorem simulates_rejectUnless {R : ParseState → List UInt8 → Prop} {ok : ParserTx → Bool} {c : Prop} [Decidable c]
    {e : ParserError} (hok : ∀ s bytes, R s bytes → (ok s.v = true ↔ c)) :
    Simulates R (rejectUnless ok e) (expect c e) fun _ _ s bytes => R s bytes ∧ c := by
  intro s bytes h
  rw [run_rejectUnless, run_expect]
  by_cases hc : c
  · rw [if_pos ((hok s bytes h).2 hc), if_pos hc]
    exact Or.inl ⟨(), (), s, bytes, rfl, rfl, h, hc⟩
  · rw [if_neg fun h' => hc ((hok s bytes h).1 h'), if_neg hc]
    exact Or.inr ⟨e, s, bytes, rfl, rfl⟩

/-- The loop over the tags. -/
theorem simulates_readTags (n i : Nat) (hi : i + n ≤ 16) :
    Simulates (Front mem) (readTags mem n i) (takeTags n) fun _ _ => Front mem := by
  induction n generalizing i with
  | zero => exact .pure fun _ _ h => h
  | succ n ih =>
    have hbound : i < 16 := by omega
    have htag : Simulates (Front mem) (parserReadTag mem i) takeTag fun _ _ => Front mem :=
      (simulates_readElement (l := .tagKey i) hbound).bind fun _ _ =>
        ((simulates_readElement (l := .tagValue i) hbound).conseq (fun _ _ h => h.1) fun _ _ _ _ h => h).map_right
          fun _ _ _ _ h => h.1
    exact htag.bind fun _ _ => (ih (i + 1) (by omega)).map_right fun _ _ _ _ h => h

/-- `_read` and the decoder, from end to end. -/
theorem simulates_read : Simulates (Front mem) (read mem) takeFields fun _ _ => Front mem := by
  have field : ∀ {R : ParseState → List UInt8 → Prop}, (∀ s bytes, R s bytes → Front mem s bytes) → ∀ l : ElementLoc,
      l.InBounds → Simulates R (parserReadElement mem l) takeField
        fun _ f s bytes => Front mem s bytes ∧ ∃ n, Shows mem n (s.v.element l) f :=
    fun hR l hl => (simulates_readElement hl).conseq hR fun _ _ _ _ h => h
  refine .bind (field (fun _ _ h => h) .format trivial) fun _ format => .bind (simulates_rejectUnless ?format) fun _ _ =>
    .bind (field (fun _ _ h => h.1.1) .owner trivial) fun _ owner => .bind (simulates_rejectUnless ?owner) fun _ _ =>
    .bind (field (fun _ _ h => h.1.1) .target trivial) fun _ _ => .bind (field (fun _ _ h => h.1) .quantity trivial) fun _ _ =>
    .bind (field (fun _ _ h => h.1) .reward trivial) fun _ _ => .bind (field (fun _ _ h => h.1) .lastTx trivial) fun _ _ =>
    .bind (simulates_readTagsCount.conseq (fun _ _ h => h.1) fun _ _ _ _ h => h) fun _ count =>
    .bind (simulates_rejectUnless ?count) fun _ _ => ?tail
  case format =>
    rintro s bytes ⟨-, n, hshows⟩
    exact formatOk_iff hshows
  case owner =>
    rintro s bytes ⟨-, n, hshows⟩
    rw [decide_eq_true_eq]
    exact iff_of_eq (congrArg (· = 512) hshows.len)
  case count =>
    rintro s bytes ⟨-, hcount⟩
    rw [decide_eq_true_eq, hcount]
  case tail =>
    -- the loop looks the count up in the object
    refine .get_bind fun s bytes h => ?_
    obtain ⟨⟨hfront, hcount⟩, hmax⟩ := h
    rw [hcount]
    refine Simulates.conseq (R := Front mem) (Q := fun _ _ => Front mem) ?rest ?_ fun _ _ _ _ h => h
    case rest =>
      exact .bind (simulates_readTags count 0 (by rw [Nat.zero_add]; exact hmax)) fun _ _ =>
        .bind (field (fun _ _ h => h) .dataSize trivial) fun _ _ =>
        (field (fun _ _ h => h.1) .dataRoot trivial).map_right fun _ _ _ _ h => h.1
    rintro _ _ ⟨rfl, rfl⟩
    exact hfront

end

end DecodeAux

open DecodeAux

/-- For every buffer, whatever was parsed before: `parser_parse` stops with the error that the decoder finds in it, or it succeeds
and the object shows the transaction that the decoder finds. -/
theorem parserParse_decodes {mem : Mem} {n : Nat} (hn : n ≤ mem.length) (hsmall : n < 65536) (s : ParseState) :
    match decodeTx (mem.take n) with
    | .error e => ∃ s', (parserParse mem (some 0) n).run s = .error e s'
    | .ok f => ∃ s', (parserParse mem (some 0) n).run s = .ok () s' ∧ s'.v.Holds mem n f ∧ f.Acceptable := by
  have hmod : n % 65536 = n := Nat.mod_eq_of_lt hsmall
  rw [run_parserParse, hmod, decodeTx]
  by_cases h0 : n = 0
  · subst h0
    rw [if_pos rfl, if_pos Nat.zero_lt_one]
    exact ⟨_, rfl⟩
  · have hne : mem.take n ≠ [] := by
      intro h
      have := congrArg List.length h
      rw [List.length_take_of_le hn, List.length_nil] at this
      exact h0 this
    have hfront : Front mem { s with c := ParserContext.initial n } (mem.take n) :=
      ⟨ParserContext.initial_valid hn, by simp only [ParserContext.unread, ParserContext.initial, List.drop_zero, hmod]⟩
    rw [if_neg hne, if_neg (by omega), if_neg h0]
    rcases simulates_read _ _ hfront with ⟨_, f, s', t, hread, htake, -⟩ | ⟨e, s', t, hread, htake⟩
    · obtain ⟨hbytes, hf⟩ := takeFields_ok htake
      obtain ⟨s'', hread', hholds, -⟩ := read_of_message hfront.valid hf (hfront.unread.trans hbytes)
      rw [htake]
      exact ⟨s'', hread', hmod ▸ hholds, hf⟩
    · rw [htake]
      exact ⟨s', hread⟩

end LedgerArweave
