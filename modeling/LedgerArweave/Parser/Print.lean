import LedgerArweave.B64url
import LedgerArweave.CryptoStore
import LedgerArweave.Parser.Accept

/-!
# What the review shows

`parser.c` and `parser_impl.c`, from `parser_getNumItems` on: the printers of the items and the validation of a parsed
transaction, which prints every item once. What an item shows depends on the bytes the elements show only.
-/

namespace LedgerArweave

open Lib

/-- What `parser_getItem` fills: the key and the value buffer and the page count. -/
structure ItemOut where
  key : List UInt8
  val : List UInt8
  pageCount : Nat
  deriving DecidableEq, Repr

abbrev Printer : Type := EStateM ParserError ItemOut Unit

def constNumUiItems : Nat := 4
def dataSizeNumUiItems : Nat := 1
def dataRootNumUiItems : Nat := 1
def coinAmountDecimalPlaces : Nat := 12
def coinDefaultDenomRepr : String := "AR "

/-- The length of the printers' local buffer. -/
def uibufferLen : Nat := 200

/-- A buffer read as a C string (`strnlen` of it). -/
def cString (buf : List UInt8) : List UInt8 := buf.takeWhile (· ≠ 0)

/-- `snprintf` of a text into the start of a buffer. -/
def snprintfInto (buf : List UInt8) (size : Nat) (text : List UInt8) : List UInt8 :=
  if size = 0 then buf else patch buf 0 (text.take (size - 1) ++ [0])

section

variable (P : Platform) (mem : Mem)

/-! ## The printers -/

/-- `MEMZERO(outKey, outKeyLen)`. -/
def zeroKey (outKeyLen : Nat) : Printer := modify fun o => { o with key := List.replicate outKeyLen 0 }

/-- `MEMZERO(outVal, outValLen)`. -/
def zeroVal (outValLen : Nat) : Printer := modify fun o => { o with val := List.replicate outValLen 0 }

/-- `pageStringExt` into the value buffer. -/
def pageStringExt (outValLen : Nat) (text : List UInt8) (pageIdx : Nat) : Printer :=
  modify fun o => { o with
    val := (P.pageStringExt outValLen text pageIdx).1, pageCount := (P.pageStringExt outValLen text pageIdx).2 }

/-- Print an element in base64url: what `parser_printTarget`, `parser_printLastTx` and `parser_printData` do. -/
def printB64url (v : ParserElement) (outValLen pageIdx : Nat) : Printer := do
  zeroVal outValLen
  match b64urlEncode uibufferLen mem v with
  | none => throw .unexpectedBufferEnd
  | some (0, _) => throw .unexpectedBufferEnd
  | some (_ + 1, uibuffer) => pageStringExt P outValLen (cString uibuffer) pageIdx

/-- `parser_printTarget`. -/
def parserPrintTarget (v : ParserElement) (outValLen pageIdx : Nat) : Printer := printB64url P mem v outValLen pageIdx

/-- `parser_printLastTx`. -/
def parserPrintLastTx (v : ParserElement) (outValLen pageIdx : Nat) : Printer := printB64url P mem v outValLen pageIdx

/-- `parser_printData`. -/
def parserPrintData (v : ParserElement) (outValLen pageIdx : Nat) : Printer := printB64url P mem v outValLen pageIdx

/-- `parser_printQuantity`. -/
def parserPrintQuantity (c : ParserElement) (decimalPlaces : Nat) (trimTrailingZeros : Bool) (postfix_ prefix_ : String)
    (outValueLen pageIdx : Nat) : Printer := do
  if c.len > uibufferLen then throw .unexpectedError
  else
    zeroVal outValueLen
    modify fun o => { o with pageCount := 1 }
    let bufferUI := patch (List.replicate uibufferLen 0) 0 (c.bytes mem)
    let (number, bufferUI) := P.intstrToFpstrInplace bufferUI decimalPlaces
    if number = 0 then throw .unexpectedValue
    else
      match P.zStr3join bufferUI prefix_ postfix_ with
      | none => throw .unexpectedBufferEnd
      | some bufferUI =>
        let bufferUI := if trimTrailingZeros then P.numberInplaceTrimming bufferUI 1 else bufferUI
        pageStringExt P outValueLen (cString bufferUI) pageIdx

/-- `parser_printSize`. -/
def parserPrintSize (v : ParserElement) (outValLen pageIdx : Nat) : Printer := do
  if v.len > uibufferLen then throw .unexpectedError
  else
    zeroVal outValLen
    let uibuffer := patch (List.replicate uibufferLen 0) 0 (v.bytes mem)
    pageStringExt P outValLen (cString uibuffer) pageIdx

/-- `parser_printReward`. -/
def parserPrintReward (v : ParserElement) (outValLen pageIdx : Nat) : Printer := do
  zeroVal outValLen
  pageStringExt P outValLen (v.bytes mem) pageIdx

/-- `parser_printTag`: the key is printed as a C string that is cut after its length. -/
def parserPrintTag (v : ParserTag) (outKeyLen outValLen pageIdx : Nat) : Printer := do
  zeroKey outKeyLen
  zeroVal outValLen
  let maxKeyLen := if outKeyLen ≥ v.key.len + 1 then v.key.len + 1 else outKeyLen
  modify fun o => { o with key := snprintfInto o.key maxKeyLen (cString (mem.drop (v.key.ptr.getD 0))) }
  pageStringExt P outValLen (v.value.bytes mem) pageIdx

/-! ## The items -/

/-- `_getNumItems`: an 8-bit number. -/
def getNumItems (expert : Bool) (v : ParserTx) : Nat :=
  if !expert then constNumUiItems
  else (constNumUiItems + v.tagsCount + dataSizeNumUiItems + (if v.dataRoot.len > 0 then dataRootNumUiItems else 0)) % 256

/-- `snprintf` of a title into the key buffer. -/
def title (outKeyLen : Nat) (text : String) : Printer :=
  modify fun o => { o with key := snprintfInto o.key outKeyLen (ascii text) }

/-- `parser_getItem`. -/
def parserGetItem (expert : Bool) (v : ParserTx) (displayIdx outKeyLen outValLen pageIdx : Nat) : Printer := do
  zeroKey outKeyLen
  zeroVal outValLen
  modify fun o => { o with
    key := snprintfInto o.key outKeyLen (ascii "? " ++ decimal displayIdx)
    val := snprintfInto o.val outValLen (ascii "?")
    pageCount := 0 }
  if displayIdx ≥ getNumItems expert v then throw .noData
  else
    modify fun o => { o with pageCount := 1 }
    match displayIdx with
    | 0 => do
      title outKeyLen "Target"
      parserPrintTarget P mem v.target outValLen pageIdx
    | 1 => do
      title outKeyLen "Quantity"
      parserPrintQuantity P mem v.quantity coinAmountDecimalPlaces true "" coinDefaultDenomRepr outValLen pageIdx
    | 2 => do
      title outKeyLen "Reward"
      parserPrintReward P mem v.reward outValLen pageIdx
    | 3 => do
      title outKeyLen "Last tx"
      parserPrintLastTx P mem v.lastTx outValLen pageIdx
    | 4 => do
      title outKeyLen "Data size"
      parserPrintSize P mem v.dataSize outValLen pageIdx
    | _ =>
      if displayIdx = 5 ∧ v.dataRoot.len ≠ 0 then do
        title outKeyLen "Data root"
        parserPrintData P mem v.dataRoot outValLen pageIdx
      else
        let tagIdx :=
          displayIdx - (constNumUiItems + dataSizeNumUiItems + (if v.dataRoot.len ≠ 0 then dataRootNumUiItems else 0))
        if tagIdx ≥ maxNumberTags then throw .unexpectedValue
        else parserPrintTag P mem (v.tag tagIdx) outKeyLen outValLen pageIdx

/-! ## Validation -/

/-- `crypto_getpubkey_part`, which asks for a buffer of 256 bytes at least. -/
def cryptoGetpubkeyPart (store : CryptoStore) (bufferLen index : Nat) : Except ZxErr (List UInt8) :=
  if !cryptoStoreIsInitialized store ∨ bufferLen < 256 then .error .invalidCryptoSettings
  else cryptoPubkeyPart store index

/-- The round of the loop of `_validateTx` for one half of the modulus. -/
def validateOwnerHalf (store : CryptoStore) (v : ParserTx) (i : Nat) : Except ParserError Unit :=
  match cryptoGetpubkeyPart store rsaModulusHalve i with
  | .error _ => .error .unexpectedError
  | .ok rsakey =>
    if slice mem (v.owner.ptr.getD 0 + i * rsaModulusHalve) rsaModulusHalve ≠ rsakey then .error .unexpectedError
    else .ok ()

/-- `_validateTx`: the owner is the modulus of the slot in use. -/
def validateTx (store : CryptoStore) (v : ParserTx) : Except ParserError Unit := do
  validateOwnerHalf mem store v 0
  validateOwnerHalf mem store v 1

/-- The length of the buffers `parser_validate` prints into. -/
def tmpLen : Nat := 40

/-- The loop of `parser_validate` over the items from `idx` on, `n` of them. -/
def validateItems (expert : Bool) (v : ParserTx) : (n idx : Nat) → Printer
  | 0, _ => pure ()
  | n + 1, idx => do
    parserGetItem P mem expert v idx tmpLen tmpLen 0
    validateItems expert v n (idx + 1)

/-- `parser_validate`. -/
def parserValidate (store : CryptoStore) (expert : Bool) (v : ParserTx) : Except ParserError Unit := do
  validateTx mem store v
  match (validateItems P mem expert v (getNumItems expert v) 0).run
      ⟨List.replicate tmpLen 0, List.replicate tmpLen 0, 0⟩ with
  | .ok _ _ => .ok ()
  | .error e _ => .error e

end

/-- A part of the public key: one of the two halves of the modulus in use. -/
theorem cryptoGetpubkeyPart_eq (store : CryptoStore) {bufferLen : Nat} (h : 256 ≤ bufferLen) (index : Nat) :
    cryptoGetpubkeyPart store bufferLen index =
      if store.slot.initialized = true then
        if index > 1 then .error .outOfBounds else .ok (slice store.slot.rsaPub.n.1 (index * rsaModulusHalve) rsaModulusHalve)
      else .error .invalidCryptoSettings := by
  unfold cryptoGetpubkeyPart cryptoPubkeyPart cryptoStoreGetPubkey cryptoStoreIsInitialized
  cases store.slot.initialized with
  | false => rfl
  | true => simp only [Bool.not_true, Bool.false_eq_true, false_or, if_false, if_true, if_neg (Nat.not_lt.2 h)]

/-! ## What the items depend on -/

/-- The items before the tags are five, or six with a data root; the others are tags. -/
theorem tagIdx_lt {expert : Bool} {v : ParserTx} {k : Nat} (hidx : k + 5 < getNumItems expert v)
    (hroot : ¬(k + 5 = 5 ∧ v.dataRoot.len ≠ 0)) :
    k + 5 - (constNumUiItems + dataSizeNumUiItems + (if v.dataRoot.len ≠ 0 then dataRootNumUiItems else 0)) < v.tagsCount := by
  revert hidx
  simp only [getNumItems, constNumUiItems, dataSizeNumUiItems, dataRootNumUiItems]
  split
  · omega
  · split <;> split <;> omega

/-- Text behind the bytes an element has is cut off when it is printed as a C string that is no longer. -/
theorem snprintfInto_cString {buf text text' : List UInt8} {size len : Nat} (h : text'.take len = text.take len)
    (hsize : size ≤ len + 1) : snprintfInto buf size (cString text') = snprintfInto buf size (cString text) := by
  have hcut : text'.take (size - 1) = text.take (size - 1) := by
    have hmin : min (size - 1) len = size - 1 := by omega
    rw [← hmin, ← List.take_take, ← List.take_take, h]
  unfold snprintfInto cString
  rw [List.take_takeWhile, List.take_takeWhile, hcut]

section

variable {P : Platform} {mem mem' : Mem}

theorem printB64url_congr {v : ParserElement} (h : v.bytes mem' = v.bytes mem) (outValLen pageIdx : Nat) :
    printB64url P mem' v outValLen pageIdx = printB64url P mem v outValLen pageIdx := by
  simp only [printB64url, b64urlEncode, h]

theorem parserPrintTag_congr {n n' : Nat} {v : ParserTag} {key : List UInt8} (hkey : Shows mem n v.key key)
    (hkey' : Shows mem' n' v.key key) (hvalue : v.value.bytes mem' = v.value.bytes mem) (outKeyLen outValLen pageIdx : Nat) :
    parserPrintTag P mem' v outKeyLen outValLen pageIdx = parserPrintTag P mem v outKeyLen outValLen pageIdx := by
  obtain ⟨p, hp, -, hs⟩ := hkey.view
  obtain ⟨p', hp', -, hs'⟩ := hkey'.view
  obtain rfl : p = p' := Option.some.inj (hp.symm.trans hp')
  have htext : (mem'.drop p).take v.key.len = (mem.drop p).take v.key.len := by
    rw [hkey.len]
    exact hs'.trans hs.symm
  have hsize : (if outKeyLen ≥ v.key.len + 1 then v.key.len + 1 else outKeyLen) ≤ v.key.len + 1 := by
    split <;> omega
  have hprint := fun buf => @snprintfInto_cString buf _ _ _ _ htext hsize
  simp only [parserPrintTag, hp, Option.getD_some, hvalue, hprint]

/-- What an item shows depends on the content the object shows only. -/
theorem parserGetItem_congr {n n' : Nat} {v : ParserTx} {f : TxFields} (h : v.Holds mem n f) (h' : v.Holds mem' n' f)
    (expert : Bool) (idx outKeyLen outValLen pageIdx : Nat) :
    parserGetItem P mem' expert v idx outKeyLen outValLen pageIdx =
      parserGetItem P mem expert v idx outKeyLen outValLen pageIdx := by
  have hbytes : ∀ {e : ParserElement} {b : List UInt8}, Shows mem n e b → Shows mem' n' e b → e.bytes mem' = e.bytes mem :=
    fun h h' => h'.bytes.trans h.bytes.symm
  by_cases hidx : idx ≥ getNumItems expert v
  · simp only [parserGetItem, if_pos hidx]
  match idx with
  | 0 => simp only [parserGetItem, parserPrintTarget, printB64url_congr (hbytes h.target h'.target)]
  | 1 => simp only [parserGetItem, parserPrintQuantity, hbytes h.quantity h'.quantity]
  | 2 => simp only [parserGetItem, parserPrintReward, hbytes h.reward h'.reward]
  | 3 => simp only [parserGetItem, parserPrintLastTx, printB64url_congr (hbytes h.lastTx h'.lastTx)]
  | 4 => simp only [parserGetItem, parserPrintSize, hbytes h.dataSize h'.dataSize]
  | k + 5 =>
    have htag : ∀ i, i < v.tagsCount → parserPrintTag P mem' (v.tag i) outKeyLen outValLen pageIdx =
        parserPrintTag P mem (v.tag i) outKeyLen outValLen pageIdx := by
      intro i hi
      rw [h.count] at hi
      obtain ⟨hk, hw⟩ := h.tags i _ (List.getElem?_eq_getElem hi)
      obtain ⟨hk', hw'⟩ := h'.tags i _ (List.getElem?_eq_getElem hi)
      exact parserPrintTag_congr hk hk' (hbytes hw hw') outKeyLen outValLen pageIdx
    simp only [parserGetItem, parserPrintData, printB64url_congr (hbytes h.dataRoot h'.dataRoot)]
    by_cases hroot : k + 5 = 5 ∧ v.dataRoot.len ≠ 0
    · simp only [if_pos hroot]
    · simp only [if_neg hroot]
      rw [htag _ (tagIdx_lt (Nat.lt_of_not_le hidx) hroot)]

end

end LedgerArweave
