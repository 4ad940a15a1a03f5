import LedgerArweave.Parser.Read
import LedgerArweave.Lib.Traces

/-!
# The readers, step by step

`parser_impl.c` once more, with every step noted: each byte that is read and its address, each write into the transaction object
and each move of the offset. Without the notes the readers are those of `Parser.Read`.
-/

namespace LedgerArweave

open Lib

/-- A step of a reader. -/
inductive ReadStep where
  /-- The byte at an address is read. -/
  | byte (addr : Nat)
  /-- A number of the object is written. -/
  | number (l : U16Loc)
  /-- The pointer of an element is written. -/
  | pointer (l : ElementLoc)
  /-- The offset is moved on by a size. -/
  | advance (offset size : Nat)
  /-- `parser_readElement` has succeeded. -/
  | element (l : ElementLoc)
  /-- The loop over the tags starts with an entry. -/
  | tag (i : Nat)
  deriving DecidableEq, Repr

abbrev ReadTrace : Type := Traced ReadStep ParseState

abbrev TracedReader : Type → Type := EStateM ParserError ReadTrace

/-- The address of the byte `i` places after a pointer. -/
def addrOf (p : Option Nat) (i : Nat) : Nat := p.getD 0 + i

/-- The byte at an address is read. -/
def readByte (mem : Mem) (addr : Nat) : TracedReader UInt8 := do
  perform (.byte addr) id
  pure (mem.getD addr 0)

namespace Traced

/-- `CTX_CHECK_AVAIL`. -/
def ctxCheckAvail (size : Nat) : TracedReader Unit := do
  let t ← get
  if t.state.c.offset + size > t.state.c.bufferLen then throw .unexpectedBufferEnd else pure ()

/-- `CTX_CHECK_AND_ADVANCE`. -/
def ctxCheckAndAdvance (size : Nat) : TracedReader Unit := do
  ctxCheckAvail size
  let t ← get
  perform (.advance t.state.c.offset size) fun s => { s with c.offset := (s.c.offset + size) % 65536 }

/-- `parser_readU16`: the number is written twice, first without its second byte. -/
def parserReadU16 (mem : Mem) (l : U16Loc) : TracedReader Unit := do
  ctxCheckAvail 2
  let t ← get
  let hi ← readByte mem (addrOf t.state.c.buffer t.state.c.offset)
  perform (.number l) fun s => { s with v := s.v.setU16 l (ofBe16 hi 0) }
  let lo ← readByte mem (addrOf t.state.c.buffer (t.state.c.offset + 1))
  perform (.number l) fun s => { s with v := s.v.setU16 l (ofBe16 hi lo) }
  ctxCheckAndAdvance 2

/-- The pointer of an element is set to where the offset is. -/
def storePtr (l : ElementLoc) (s : ParseState) : ParseState :=
  { s with v := s.v.setElement l { s.v.element l with ptr := some (s.c.buffer.getD 0 + s.c.offset) } }

/-- `parser_readElement`. -/
def parserReadElement (mem : Mem) (l : ElementLoc) : TracedReader Unit := do
  parserReadU16 mem (.len l)
  let t ← get
  ctxCheckAvail (t.state.v.element l).len
  perform (.pointer l) (storePtr l)
  ctxCheckAndAdvance (t.state.v.element l).len
  perform (.element l) id

/-- `parser_readTag`. -/
def parserReadTag (mem : Mem) (i : Nat) : TracedReader Unit := do
  parserReadElement mem (.tagKey i)
  parserReadElement mem (.tagValue i)

/-- Return an error unless what was read so far passes a check. -/
def rejectUnless (ok : ParserTx → Bool) (e : ParserError) : TracedReader Unit := do
  let t ← get
  if ok t.state.v then pure () else throw e

/-- The check of the format: its byte is read when its length is 1 only. -/
def rejectUnlessFormatOk (mem : Mem) : TracedReader Unit := do
  let t ← get
  if t.state.v.format.len = 1 then
    let b ← readByte mem (addrOf t.state.v.format.ptr 0)
    if b = 50 then pure () else throw .unexpectedTxVersion
  else throw .unexpectedTxVersion

/-- The loop of `_read` over the tags from `i` on, `n` of them. -/
def readTags (mem : Mem) : (n i : Nat) → TracedReader Unit
  | 0, _ => pure ()
  | n + 1, i => do
    perform (.tag i) id
    parserReadTag mem i
    readTags mem n (i + 1)

/-- `_read`. -/
def read (mem : Mem) : TracedReader Unit := do
  parserReadElement mem .format
  rejectUnlessFormatOk mem
  parserReadElement mem .owner
  rejectUnless (fun v => v.owner.len = 512) .unexpectedTxVersion
  parserReadElement mem .target
  parserReadElement mem .quantity
  parserReadElement mem .reward
  parserReadElement mem .lastTx
  parserReadU16 mem .tagsCount
  rejectUnless (fun v => v.tagsCount ≤ maxNumberTags) .valueOutOfRange
  let t ← get
  readTags mem t.state.v.tagsCount 0
  parserReadElement mem .dataSize
  parserReadElement mem .dataRoot

/-- `parser_parse`: what `parser_init` does to the context is not part of `_read`. -/
def parserParse (mem : Mem) (data : Option Nat) (dataLen : Nat) : TracedReader Unit := do
  if dataLen < 1 then throw .noData
  else
    zoom Lib.Traced.state (fun s t => { t with state := s }) (parserInit data dataLen)
    read mem

/-! ## Without the notes -/

/-- Writing a number again leaves the second. -/
theorem setU16_setU16 (v : ParserTx) (l : U16Loc) (m n : Nat) : (v.setU16 l m).setU16 l n = v.setU16 l n := by
  cases l with
  | tagsCount => rfl
  | len l =>
    by_cases hl : l.InBounds
    · simp only [ParserTx.setU16, v.element_setElement_self hl, ParserTx.setElement_setElement]
    · have hout : ∀ e, v.setElement l e = v := by
        intro e
        cases l with
        | tagKey i => simp only [ParserTx.setElement, Vector.setIfInBounds_eq_of_size_le (Nat.not_lt.1 hl)]
        | tagValue i => simp only [ParserTx.setElement, Vector.setIfInBounds_eq_of_size_le (Nat.not_lt.1 hl)]
        | _ => exact absurd trivial hl
      simp only [ParserTx.setU16, hout]

/-- The check of the rest of the buffer notes nothing. -/
theorem erases_ctxCheckAvail (size : Nat) : Erases (ctxCheckAvail size) (LedgerArweave.ctxCheckAvail size) :=
  .get_bind fun _ => .ite (.throw _) (.pure _)

/-- Without its note, the offset moves as it does in the parser. -/
theorem erases_ctxCheckAndAdvance (size : Nat) : Erases (ctxCheckAndAdvance size) (LedgerArweave.ctxCheckAndAdvance size) := by
  refine .bind (erases_ctxCheckAvail size) fun _ t => ?_
  rfl

/-- The points of a read of a number, up to the move of the offset. -/
def tookU16 (mem : Mem) (l : U16Loc) (t : ReadTrace) : ReadTrace :=
  let c := t.state.c
  let hi := byteAt mem c.buffer c.offset
  (((t.step (.byte (addrOf c.buffer c.offset)) id).step (.number l) fun s => { s with v := s.v.setU16 l (ofBe16 hi 0) }).step
    (.byte (addrOf c.buffer (c.offset + 1))) id).step (.number l) fun s => { s with v := s.v.setU16 l (next16 mem c) }

/-- What reading a number leaves in the object. -/
theorem state_tookU16 (mem : Mem) (l : U16Loc) (t : ReadTrace) :
    (tookU16 mem l t).state = { t.state with v := t.state.v.setU16 l (next16 mem t.state.c) } := by
  simp only [tookU16, Traced.step, id_eq, setU16_setU16]

/-- Without the notes of its two bytes, a number is read as the parser reads it. -/
theorem erases_parserReadU16 (mem : Mem) (l : U16Loc) : Erases (parserReadU16 mem l) (LedgerArweave.parserReadU16 mem l) := by
  refine .bind (erases_ctxCheckAvail 2) fun _ t => ?_
  refine (erases_ctxCheckAndAdvance 2 (tookU16 mem l t)).trans ?_
  rw [state_tookU16]
  rfl

/-- The same of an element: a number, and as many bytes. -/
theorem erases_parserReadElement (mem : Mem) (l : ElementLoc) :
    Erases (parserReadElement mem l) (LedgerArweave.parserReadElement mem l) := by
  refine .bind (erases_parserReadU16 mem (.len l)) fun _ => .get_bind fun t => .bind (erases_ctxCheckAvail _) fun _ =>
    .bind (.perform _ _) fun _ => .bind_note (erases_ctxCheckAndAdvance _)

/-- The same of a tag: two elements. -/
theorem erases_parserReadTag (mem : Mem) (i : Nat) : Erases (parserReadTag mem i) (LedgerArweave.parserReadTag mem i) :=
  .bind (erases_parserReadElement mem _) fun _ => erases_parserReadElement mem _

/-- A check of what was read notes nothing. -/
theorem erases_rejectUnless (ok : ParserTx → Bool) (e : ParserError) :
    Erases (rejectUnless ok e) (LedgerArweave.rejectUnless ok e) :=
  .get_bind fun _ => .ite (.pure _) (.throw _)

/-- The check of the format looks at its byte, when its length is one only. -/
theorem erases_rejectUnlessFormatOk (mem : Mem) :
    Erases (rejectUnlessFormatOk mem) (LedgerArweave.rejectUnless (formatOk mem) .unexpectedTxVersion) := by
  refine .get_bind fun t => ?_
  by_cases hlen : t.state.v.format.len = 1
  · have hok : formatOk mem t.state.v = true ↔ mem.getD (addrOf t.state.v.format.ptr 0) 0 = 50 := by
      simp only [formatOk, hlen, true_and, decide_eq_true_eq, byteAt, addrOf]
    rw [if_pos hlen, if_congr hok rfl rfl]
    have hread : Erases (readByte mem (addrOf t.state.v.format.ptr 0)) (pure (mem.getD (addrOf t.state.v.format.ptr 0) 0)) :=
      fun _ => rfl
    exact hread.bind (g := fun b => if b = 50 then pure () else throw .unexpectedTxVersion) fun _ => .ite (.pure _) (.throw _)
  · have hbad : ¬formatOk mem t.state.v = true := by
      simp only [formatOk, hlen, false_and, decide_false, Bool.false_eq_true, not_false_eq_true]
    rw [if_neg hlen, if_neg hbad]
    exact .throw _

/-- The loop over the tags, by induction on how many are left. -/
theorem erases_readTags (mem : Mem) (n i : Nat) : Erases (readTags mem n i) (LedgerArweave.readTags mem n i) := by
  induction n generalizing i with
  | zero => exact .pure _
  | succ n ih => exact .note_bind (.bind (erases_parserReadTag mem i) fun _ => ih (i + 1))

/-- Without its notes, the traced `_read` is `_read`. -/
theorem erases_read (mem : Mem) : Erases (read mem) (LedgerArweave.read mem) :=
  .bind (erases_parserReadElement mem _) fun _ => .bind (erases_rejectUnlessFormatOk mem) fun _ =>
    .bind (erases_parserReadElement mem _) fun _ => .bind (erases_rejectUnless _ _) fun _ =>
    .bind (erases_parserReadElement mem _) fun _ => .bind (erases_parserReadElement mem _) fun _ =>
    .bind (erases_parserReadElement mem _) fun _ => .bind (erases_parserReadElement mem _) fun _ =>
    .bind (erases_parserReadU16 mem _) fun _ => .bind (erases_rejectUnless _ _) fun _ =>
    .get_bind fun _ => .bind (erases_readTags mem _ 0) fun _ => .bind (erases_parserReadElement mem _) fun _ =>
    erases_parserReadElement mem _

/-- Without its notes, the traced `parser_parse` is `parser_parse`. -/
theorem erases_parserParse (mem : Mem) (data : Option Nat) (dataLen : Nat) :
    Erases (parserParse mem data dataLen) (LedgerArweave.parserParse mem data dataLen) :=
  .ite (.throw _) (.bind (.zoom _) fun _ => erases_read mem)

end Traced

end LedgerArweave
