import LedgerArweave.Parser.Accept
import LedgerArweave.Parser.Print

/-!
# The upload of a transaction

`tx.c` and the part of `apdu_handler.c` that collects chunks (`process_chunk`). All of it works on `Upload`: the flag
`tx_initialized`, the transaction buffer, and the parser's globals, which point into the buffer.
-/

namespace LedgerArweave

open Lib

/-- The transaction buffer: a region of memory that is used again from its start after every reset. Until `tx_initialize` it
has no room. -/
structure Buffering where
  data : Mem
  size : Nat
  pos : Nat
  deriving DecidableEq, Repr

/-- The bytes the buffer holds. -/
def Buffering.content (b : Buffering) : List UInt8 := b.data.take b.pos

/-- A buffer whose bytes lie inside its region. -/
structure Buffering.Valid (b : Buffering) : Prop where
  pos_le : b.pos ≤ b.data.length
  size_le : b.size ≤ b.data.length

/-- The globals an upload works on: `tx_initialized` of `apdu_handler.c`, the buffer, `ctx_parsed_tx` and `tx_obj` of `tx.c`,
and `parser_tx_obj` of `parser_impl.c`. -/
structure Upload where
  txInitialized : Bool
  buffering : Buffering
  ctxParsedTx : ParserContext
  txObj : ParserTx
  parserTxObj : ParserTx
  deriving DecidableEq, Repr

/-- The parser's part of the globals. -/
def Upload.parser (u : Upload) : ParseState := ⟨u.ctxParsedTx, u.parserTxObj⟩

/-- The globals after the parser worked on its part. -/
def Upload.setParser (p : ParseState) (u : Upload) : Upload := { u with ctxParsedTx := p.c, parserTxObj := p.v }

/-- The content the transaction object shows. -/
def Upload.fields (u : Upload) : TxFields := u.parserTxObj.fields u.buffering.data

section

variable (P : Platform)

/-! ## The buffer -/

/-- `tx_initialize`. -/
def txInitialize (b : Buffering) : Buffering := { b with size := b.data.length, pos := 0 }

/-- `tx_reset`. -/
def txReset (b : Buffering) : Buffering := { b with pos := 0 }

/-- `tx_append`: how many bytes it appended, and the buffer after it. -/
def txAppend (b : Buffering) (chunk : List UInt8) : Nat × Buffering :=
  let added := P.appended b.size b.pos chunk
  (added, { b with data := patch b.data b.pos (chunk.take added), pos := b.pos + added })

/-! ## The chunks -/

/-- The bytes of an APDU behind its header. -/
def payload (io : List UInt8) (rx : Nat) : List UInt8 := slice io offsetData (rx - offsetData)

/-- `process_chunk` on the APDU buffer `io` with `rx` bytes received: whether the last chunk was collected. -/
def processChunk (io : List UInt8) (rx : Nat) : EStateM StatusWord Upload Bool := do
  let payloadType := io.getD offsetPayloadType 0
  if rx < offsetData then throw apduCodeWrongLength
  else if io.getD offsetP2 0 ≠ 0 then throw apduCodeInvalidP1P2
  else if payloadType = p1Init then
    modify fun u => { u with buffering := txReset (txInitialize u.buffering), txInitialized := true }
    return false
  else if payloadType = p1Add then
    let u ← get
    let (added, buffering) := txAppend P u.buffering (payload io rx)
    modify fun u => { u with buffering := buffering }
    if added ≠ rx - offsetData then
      modify fun u => { u with txInitialized := false }
      throw apduCodeOutputBufferTooSmall
    else return false
  else if payloadType = p1Last then
    let u ← get
    if !u.txInitialized then throw apduCodeTxNotInitialized
    else
      let (added, buffering) := txAppend P u.buffering (payload io rx)
      modify fun u => { u with buffering := buffering }
      if added ≠ rx - offsetData then
        modify fun u => { u with txInitialized := false }
        throw apduCodeOutputBufferTooSmall
      else return true
  else
    modify fun u => { u with txInitialized := false }
    throw apduCodeInvalidP1P2

/-! ## Parsing -/

/-- `parser_getErrorDescription`. -/
def parserGetErrorDescription : ParserError → String
  | .noData => "No more data"
  | .initContextEmpty => "Initialized empty context"
  | .displayIdxOutOfRange => "display_idx_out_of_range"
  | .displayPageOutOfRange => "display_page_out_of_range"
  | .unexpectedError => "Unexepected internal error"
  | .unexpectedTxVersion => "tx version is not supported"
  | .unexpectedType => "Unexpected data type"
  | .unexpectedBufferEnd => "Unexpected buffer end"
  | .unexpectedValue => "Unexpected value"
  | .unexpectedNumberItems => "Unexpected number of items"
  | .unexpectedCharacters => "Unexpected characters"
  | .unexpectedField => "Unexpected field"
  | .valueOutOfRange => "Value out of range"
  | .invalidAddress => "Invalid address format"
  | .contextMismatch => "context prefix is invalid"
  | .contextUnexpectedSize => "context unexpected size"
  | .contextInvalidChars => "context invalid chars"
  | .contextUnknownPrefix => "Unrecognized error code"
  | .requiredNonce => "Required field nonce"
  | .requiredMethod => "Required field method"

/-- The end of `tx_parse`, on what `parser_parse` left. -/
def txValidate (store : CryptoStore) (expert : Bool) : EStateM ParserError Upload Unit := do
  let u ← get
  match parserValidate P u.buffering.data store expert u.parserTxObj with
  | .ok _ => pure ()
  | .error e => throw e

/-- `tx_parse`; its error is the code whose description the source returns. The object it clears is `tx_obj`, which nothing
else uses. -/
def txParse (store : CryptoStore) (expert : Bool) : EStateM ParserError Upload Unit := do
  modify fun u => { u with txObj := ParserTx.zero }
  let u ← get
  zoom Upload.parser Upload.setParser (parserParse u.buffering.data (some 0) u.buffering.pos)
  txValidate P store expert

/-- `tx_parse_reset`. -/
def txParseReset (u : Upload) : Upload := { u with txObj := ParserTx.zero }

/-! ## The items -/

/-- `tx_getNumItems`. -/
def txGetNumItems (expert : Bool) (v : ParserTx) : Nat := getNumItems expert v

/-- `tx_getItem`: the codes of the parser are converted. -/
def txGetItem (mem : Mem) (expert : Bool) (v : ParserTx) (displayIdx : Int8) (outKeyLen outValLen pageIdx : Nat) :
    EStateM ZxErr ItemOut Unit := do
  let numItems := txGetNumItems expert v
  if displayIdx.toInt < 0 ∨ displayIdx.toInt > numItems then throw .noData
  else
    let err ← attempt (parserGetItem P mem expert v displayIdx.toInt.toNat outKeyLen outValLen pageIdx)
    match err with
    | .ok _ => pure ()
    | .error e =>
      if e = .noData ∨ e = .displayIdxOutOfRange ∨ e = .displayPageOutOfRange then throw .noData else throw .unknown

end

end LedgerArweave
