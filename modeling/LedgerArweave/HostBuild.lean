import LedgerArweave.Parser.Digest
import LedgerArweave.Parser.Items
import LedgerArweave.Sha512
import LedgerArweave.Tx
import Mathlib.Algebra.Group.Nat.Defs

/-!
# The app without a device

What is compiled when no device is the target: `crypto_sha384` computes the hash itself, the owner of a transaction is not
compared with a key, and the parser runs under a fuzz target and under the `dumpUI` of the tests. A loop over the pages of an
item counts in 8 bits; it has fuel for one round more than there are numbers.
-/

namespace LedgerArweave

open Lib

namespace HostBuild

/-- `crypto_sha384`: the first 48 bytes of the 64 that `SHA384` stores; `none` is an access outside a buffer. -/
def cryptoSha384 (input : List UInt8) (inLen : Nat) : Option (ByteArr 48) := do
  let tmp ← Sha512.sha384 input inLen
  pure ⟨tmp.1.take 48, by rw [List.length_take, tmp.2]; rfl⟩

/-- The hash function as the parser calls it, with the length of its input in an `unsigned int`. -/
def sha384 : Sha384 := fun x =>
  match cryptoSha384 x (x.length % 2 ^ 32) with
  | some out => .ok out
  | none => .error .unknown

section

variable (P : Platform) (mem : Mem) (expert : Bool)

/-- `_validateTx`, which does nothing here. -/
def validateTx (_ : ParserTx) : Except ParserError Unit := .ok ()

/-- `parser_validate`. -/
def parserValidate (v : ParserTx) : Except ParserError Unit := do
  validateTx v
  match (validateItems P mem expert v (getNumItems expert v) 0).run
      ⟨List.replicate tmpLen 0, List.replicate tmpLen 0, 0⟩ with
  | .ok _ _ => .ok ()
  | .error e _ => .error e

/-- The loop `while (pageIdx < pageCount)` over the pages of an item, around a body that yields something for each page, or
stops the program. -/
def forPages {α : Type} (page : Nat → ItemOut → Option (α × ItemOut)) : (fuel pageIdx : Nat) → ItemOut →
    Option (List α × ItemOut)
  | 0, _, _ => none
  | fuel + 1, pageIdx, o =>
    if pageIdx < o.pageCount then do
      let (a, o) ← page pageIdx o
      let (rest, o) ← forPages page fuel ((pageIdx + 1) % 256) o
      pure (a :: rest, o)
    else some ([], o)

/-- The loop over the items from `idx` on, `n` of them; before each the page count is one. -/
def forItems {α : Type} (page : Nat → Nat → ItemOut → Option (α × ItemOut)) : (n idx : Nat) → ItemOut →
    Option (List α × ItemOut)
  | 0, _, o => some ([], o)
  | n + 1, idx, o => do
    let (pages, o) ← forPages (page idx) 257 0 { o with pageCount := 1 }
    let (rest, o) ← forItems page n (idx + 1) o
    pure (pages ++ rest, o)

/-! ## The fuzz target -/

/-- The size of `PARSER_KEY` and of `PARSER_VALUE`. -/
def fuzzBufferLen : Nat := 16384

/-- A page of the fuzz target: `assert(false)` on an error. -/
def fuzzPage (v : ParserTx) (i pageIdx : Nat) (o : ItemOut) : Option (Unit × ItemOut) :=
  match (parserGetItem P mem expert v i fuzzBufferLen fuzzBufferLen pageIdx).run o with
  | .ok _ o => some ((), o)
  | .error _ _ => none

/-- `LLVMFuzzerTestOneInput` on the `size` bytes at the start of the memory, from what the object and the buffers hold; `none`
is an assertion that fails. -/
def llvmFuzzerTestOneInput (size : Nat) (s : ParseState) (o : ItemOut) : Option Nat :=
  match (parserParse mem (some 0) size).run s with
  | .error _ _ => some 0
  | .ok _ s =>
    match parserValidate P mem expert s.v with
    | .error _ => some 0
    | .ok _ => (forItems (fuzzPage P mem expert s.v) (getNumItems expert s.v) 0 o).map fun _ => 0

/-! ## The lines of the tests -/

/-- A line of `dumpUI`. -/
def dumpLine (idx pageIdx : Nat) (o : ItemOut) (value : List UInt8) : List UInt8 :=
  decimal idx ++ ascii " | " ++ cString o.key ++
    (if o.pageCount > 1 then ascii " [" ++ decimal (pageIdx + 1) ++ ascii "/" ++ decimal o.pageCount ++ ascii "]" else []) ++
    ascii " : " ++ value

/-- A page of `dumpUI`: a line of the value, or of the error. -/
def dumpPage (v : ParserTx) (maxKeyLen maxValueLen idx pageIdx : Nat) (o : ItemOut) : Option (List UInt8 × ItemOut) :=
  match (parserGetItem P mem expert v idx maxKeyLen maxValueLen pageIdx).run o with
  | .ok _ o => some (dumpLine idx pageIdx o (cString o.val), o)
  | .error e o => some (dumpLine idx pageIdx o (ascii (parserGetErrorDescription e)), o)

/-- The size of `keyBuffer` and of `valueBuffer`. -/
def dumpBufferLen : Nat := 1000

/-- `dumpUI`: the lines of the transaction, from what the buffers hold; `none` is a write behind one of them, or a key that was
never set. -/
def dumpUI (v : ParserTx) (maxKeyLen maxValueLen : Nat) (o : ItemOut) : Option (List (List UInt8)) :=
  if maxKeyLen = 0 ∨ maxKeyLen > dumpBufferLen ∨ maxValueLen > dumpBufferLen then none
  else (forItems (dumpPage P mem expert v maxKeyLen maxValueLen) (getNumItems expert v) 0 o).map Prod.fst

end

end HostBuild

end LedgerArweave
