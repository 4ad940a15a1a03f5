import LedgerArweave.Parser.Types
import LedgerArweave.Lib.Program

/-!
# Reading a transaction

`parser_impl.c`: the bound checks, the readers of a number, an element and a tag, and `_read`, which fills the transaction
object while it reads. Every reader writes straight into the object, so a reader that fails leaves in it what it had read by
then. The equations at the end say, per reader, what it does from any state.
-/

namespace LedgerArweave

open Lib

/-- What a reader works on: the context and the object it fills. -/
structure ParseState where
  c : ParserContext
  v : ParserTx
  deriving DecidableEq, Repr

abbrev Reader : Type → Type := EStateM ParserError ParseState

/-- The byte `i` places after a pointer. -/
def byteAt (mem : Mem) (p : Option Nat) (i : Nat) : UInt8 := mem.getD (p.getD 0 + i) 0

/-- The address of a 16-bit number of the object. -/
inductive U16Loc where
  | len (l : ElementLoc)
  | tagsCount
  deriving DecidableEq, Repr

/-- Write the number at an address. -/
def ParserTx.setU16 (v : ParserTx) : U16Loc → Nat → ParserTx
  | .len l, n => v.setElement l { v.element l with len := n }
  | .tagsCount, n => { v with tagsCount := n }

/-! ## The readers -/

/-- `CTX_CHECK_AVAIL`. -/
def ctxCheckAvail (size : Nat) : Reader Unit := do
  let s ← get
  if s.c.offset + size > s.c.bufferLen then throw .unexpectedBufferEnd else pure ()

/-- `CTX_CHECK_AND_ADVANCE`. -/
def ctxCheckAndAdvance (size : Nat) : Reader Unit := do
  ctxCheckAvail size
  modify fun s => { s with c.offset := (s.c.offset + size) % 65536 }

/-- The number the next two bytes stand for. -/
def next16 (mem : Mem) (c : ParserContext) : Nat :=
  ofBe16 (byteAt mem c.buffer c.offset) (byteAt mem c.buffer (c.offset + 1))

/-- `parser_readU16`. -/
def parserReadU16 (mem : Mem) (l : U16Loc) : Reader Unit := do
  ctxCheckAvail 2
  modify fun s => { s with v := s.v.setU16 l (next16 mem s.c) }
  ctxCheckAndAdvance 2

/-- `parser_readElement`. -/
def parserReadElement (mem : Mem) (l : ElementLoc) : Reader Unit := do
  parserReadU16 mem (.len l)
  let s ← get
  ctxCheckAvail (s.v.element l).len
  modify fun s => { s with
    v := s.v.setElement l { s.v.element l with ptr := some (s.c.buffer.getD 0 + s.c.offset) } }
  ctxCheckAndAdvance (s.v.element l).len

/-- `parser_readTag`. -/
def parserReadTag (mem : Mem) (i : Nat) : Reader Unit := do
  parserReadElement mem (.tagKey i)
  parserReadElement mem (.tagValue i)

/-- Return an error unless what was read so far passes a check. -/
def rejectUnless (ok : ParserTx → Bool) (e : ParserError) : Reader Unit := do
  let s ← get
  if ok s.v then pure () else throw e

/-- The loop of `_read` over the tags from `i` on, `n` of them. -/
def readTags (mem : Mem) : (n i : Nat) → Reader Unit
  | 0, _ => pure ()
  | n + 1, i => do
    parserReadTag mem i
    readTags mem n (i + 1)

/-- The format `_read` accepts: one byte, the character 2. -/
def formatOk (mem : Mem) (v : ParserTx) : Bool := v.format.len = 1 ∧ byteAt mem v.format.ptr 0 = 50

/-- `_read`. -/
def read (mem : Mem) : Reader Unit := do
  parserReadElement mem .format
  rejectUnless (formatOk mem) .unexpectedTxVersion
  parserReadElement mem .owner
  rejectUnless (fun v => v.owner.len = 512) .unexpectedTxVersion
  parserReadElement mem .target
  parserReadElement mem .quantity
  parserReadElement mem .reward
  parserReadElement mem .lastTx
  parserReadU16 mem .tagsCount
  rejectUnless (fun v => v.tagsCount ≤ maxNumberTags) .valueOutOfRange
  let s ← get
  readTags mem s.v.tagsCount 0
  parserReadElement mem .dataSize
  parserReadElement mem .dataRoot

/-- `parser_init_context`. -/
def parserInitContext (buffer : Option Nat) (bufferSize : Nat) : Reader Unit := do
  modify fun s => { s with c := { buffer := none, bufferLen := 0, offset := 0 } }
  if bufferSize = 0 ∨ buffer = none then throw .initContextEmpty
  else modify fun s => { s with c := { s.c with buffer := buffer, bufferLen := bufferSize } }

/-- `parser_init`: its length is 16 bits wide. -/
def parserInit (buffer : Option Nat) (bufferSize : Nat) : Reader Unit :=
  parserInitContext buffer (bufferSize % 65536)

/-- `parser_parse`. -/
def parserParse (mem : Mem) (data : Option Nat) (dataLen : Nat) : Reader Unit := do
  if dataLen < 1 then throw .noData
  else
    parserInit data dataLen
    read mem

/-! ## What each reader does -/

/-- The state with the offset moved on. -/
def ParseState.advance (s : ParseState) (n : Nat) : ParseState := { s with c := { s.c with offset := s.c.offset + n } }

/-- The state after an element of `n` bytes was read. -/
def ParseState.took (s : ParseState) (l : ElementLoc) (n : Nat) : ParseState where
  c := { s.c with offset := s.c.offset + 2 + n }
  v := s.v.setElement l ⟨n, some (s.c.buffer.getD 0 + (s.c.offset + 2))⟩

/-- The state after a length was read and stored, and the element itself was not there. -/
def ParseState.tookLen (s : ParseState) (l : ElementLoc) (n : Nat) : ParseState where
  c := { s.c with offset := s.c.offset + 2 }
  v := s.v.setU16 (.len l) n

theorem run_ctxCheckAvail (n : Nat) (s : ParseState) :
    (ctxCheckAvail n).run s =
      if s.c.offset + n ≤ s.c.bufferLen then .ok () s else .error .unexpectedBufferEnd s := by
  unfold ctxCheckAvail
  rw [run_bind_of_ok (run_get s)]
  by_cases h : s.c.offset + n ≤ s.c.bufferLen
  · rw [if_neg (by omega), if_pos h]
    rfl
  · rw [if_pos (by omega), if_neg h]
    rfl

theorem run_ctxCheckAndAdvance (n : Nat) {s : ParseState} (hs : s.c.bufferLen < 65536) :
    (ctxCheckAndAdvance n).run s =
      if s.c.offset + n ≤ s.c.bufferLen then .ok () (s.advance n) else .error .unexpectedBufferEnd s := by
  by_cases h : s.c.offset + n ≤ s.c.bufferLen
  · have hmod : (s.c.offset + n) % 65536 = s.c.offset + n := Nat.mod_eq_of_lt (by omega)
    unfold ctxCheckAndAdvance
    rw [run_bind_of_ok ((run_ctxCheckAvail n s).trans (if_pos h)), run_modify, if_pos h,
      ParseState.advance, hmod]
  · unfold ctxCheckAndAdvance
    rw [run_bind_of_error ((run_ctxCheckAvail n s).trans (if_neg h)), if_neg h]

/-- A number is read and stored, or nothing happens. -/
theorem run_parserReadU16 (mem : Mem) (l : U16Loc) {s : ParseState} (hs : s.c.bufferLen < 65536) :
    (parserReadU16 mem l).run s =
      if s.c.offset + 2 ≤ s.c.bufferLen then .ok () (ParseState.advance { s with v := s.v.setU16 l (next16 mem s.c) } 2)
      else .error .unexpectedBufferEnd s := by
  by_cases h : s.c.offset + 2 ≤ s.c.bufferLen
  · unfold parserReadU16
    rw [run_bind_of_ok ((run_ctxCheckAvail 2 s).trans (if_pos h)), run_bind_of_ok (run_modify _ s),
      run_ctxCheckAndAdvance 2 (by exact hs), if_pos h, if_pos h]
  · unfold parserReadU16
    rw [run_bind_of_error ((run_ctxCheckAvail 2 s).trans (if_neg h)), if_neg h]

/-- An element is read, or only its length is, or nothing is. -/
theorem run_parserReadElement (mem : Mem) {l : ElementLoc} (hl : l.InBounds) {s : ParseState}
    (hs : s.c.bufferLen < 65536) :
    (parserReadElement mem l).run s =
      if s.c.offset + 2 ≤ s.c.bufferLen then
        if s.c.offset + 2 + next16 mem s.c ≤ s.c.bufferLen then .ok () (s.took l (next16 mem s.c))
        else .error .unexpectedBufferEnd (s.tookLen l (next16 mem s.c))
      else .error .unexpectedBufferEnd s := by
  by_cases h : s.c.offset + 2 ≤ s.c.bufferLen
  · have hread := (run_parserReadU16 mem (.len l) hs).trans (if_pos h)
    have hlen : ((s.v.setU16 (.len l) (next16 mem s.c)).element l).len = next16 mem s.c := by
      simp only [ParserTx.setU16, ParserTx.element_setElement_self _ hl]
    unfold parserReadElement
    rw [run_bind_of_ok hread, run_bind_of_ok (run_get _), if_pos h]
    simp only [ParseState.advance, hlen]
    by_cases h' : s.c.offset + 2 + next16 mem s.c ≤ s.c.bufferLen
    · rw [run_bind_of_ok ((run_ctxCheckAvail _ _).trans (if_pos h')), run_bind_of_ok (run_modify _ _),
        run_ctxCheckAndAdvance _ (by exact hs), if_pos h', if_pos h']
      simp only [ParseState.advance, ParseState.took, ParserTx.setU16, ParserTx.element_setElement_self _ hl,
        ParserTx.setElement_setElement]
    · rw [run_bind_of_error ((run_ctxCheckAvail _ _).trans (if_neg h')), if_neg h']
      rfl
  · unfold parserReadElement
    rw [run_bind_of_error ((run_parserReadU16 mem (.len l) hs).trans (if_neg h)), if_neg h]

theorem run_rejectUnless (ok : ParserTx → Bool) (e : ParserError) (s : ParseState) :
    (rejectUnless ok e).run s = if ok s.v then .ok () s else .error e s := by
  unfold rejectUnless
  rw [run_bind_of_ok (run_get s), run_ite]
  rfl

/-- A check leaves the state as it is. -/
theorem triple_rejectUnless {I : ParseState → Prop} {E : ParserError → ParseState → Prop} {ok : ParserTx → Bool}
    {e : ParserError} (hE : ∀ s, I s → E e s) : Triple I (rejectUnless ok e) (fun _ s => I s ∧ ok s.v = true) E := by
  intro s hs
  by_cases hok : ok s.v = true
  · exact Triple.at_ok ((run_rejectUnless ok e s).trans (if_pos hok)) ⟨hs, hok⟩
  · exact Triple.at_error ((run_rejectUnless ok e s).trans (if_neg hok)) (hE s hs)

/-- The context `parser_init` sets up, or the error it returns. -/
theorem run_parserInit (buffer : Option Nat) (n : Nat) (s : ParseState) :
    (parserInit buffer n).run s =
      if n % 65536 = 0 ∨ buffer = none then .error .initContextEmpty { s with c := ParserContext.zero }
      else .ok () { s with c := ⟨buffer, n % 65536, 0⟩ } := by
  unfold parserInit
  rw [parserInitContext, run_bind_of_ok (run_modify _ s), run_ite]
  rfl

end LedgerArweave
