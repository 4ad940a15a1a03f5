import LedgerArweave.Session
import LedgerArweave.Parser.Reparse
import LedgerArweave.Demo

/-!
# The parsed transaction over runs of `tx.c`

`_read` fills `parser_tx_obj` while it checks, and nothing ever clears that object: neither a reset of the buffer nor
`tx_parse`, which clears the object `tx_obj` of its own. So the object stays well formed only as long as every transaction that
is parsed is also accepted, and as long as the buffer is not reset under its views.
-/

namespace LedgerArweave

open Lib

/-- The calls to `tx.c` that work on the buffer and on the parsed transaction. -/
inductive TxCall where
  | txInitialize
  | txReset
  | txAppend (chunk : List UInt8)
  | txParse (store : CryptoStore) (expert : Bool)
  | txParseReset

/-! ## Well-formed objects -/

/-- There are no more tags than the array has, and every element is empty or a view into the first `n` bytes of the region. -/
structure ParserTx.WellFormed (n : Nat) (v : ParserTx) : Prop where
  count : v.tagsCount ≤ maxNumberTags
  views : ∀ l, v.InUse l → (v.element l).len = 0 ∨ ∃ p, (v.element l).ptr = some p ∧ p + (v.element l).len ≤ n

/-- What is inside a part of the buffer is inside the buffer. -/
theorem ParserTx.WellFormed.mono {n n' : Nat} {v : ParserTx} (h : v.WellFormed n) (hn : n ≤ n') : v.WellFormed n' :=
  ⟨h.count, fun l hl => (h.views l hl).imp id fun ⟨p, hp, hle⟩ => ⟨p, hp, Nat.le_trans hle hn⟩⟩

section

variable (P : Platform)

/-- One call, and the error `tx_parse` returns the description of, if any. -/
def Upload.call (u : Upload) : TxCall → Upload × Option ParserError
  | .txInitialize => ({ u with buffering := txInitialize u.buffering }, none)
  | .txReset => ({ u with buffering := txReset u.buffering }, none)
  | .txAppend chunk => (u.append P chunk, none)
  | .txParse store expert =>
    match (txParse P store expert).run u with
    | .ok _ u' => (u', none)
    | .error e u' => (u', some e)
  | .txParseReset => (txParseReset u, none)

namespace ParsedStateAux

/-! ## Validation -/

/-- The number of items depends on the elements in use only. -/
theorem getNumItems_agrees {expert : Bool} {v v' : ParserTx} (h : v.Agrees v') : getNumItems expert v' = getNumItems expert v := by
  rw [getNumItems, getNumItems, h.count, show v'.dataRoot = v.dataRoot from h.elements .dataRoot trivial]

/-- Every item depends on the elements in use only, also one that does not exist. -/
theorem parserGetItem_agrees {mem : Mem} {expert : Bool} {v v' : ParserTx} (h : v.Agrees v')
    (idx outKeyLen outValLen pageIdx : Nat) :
    parserGetItem P mem expert v' idx outKeyLen outValLen pageIdx =
      parserGetItem P mem expert v idx outKeyLen outValLen pageIdx := by
  have htarget : v'.target = v.target := h.elements .target trivial
  have hquantity : v'.quantity = v.quantity := h.elements .quantity trivial
  have hreward : v'.reward = v.reward := h.elements .reward trivial
  have hlastTx : v'.lastTx = v.lastTx := h.elements .lastTx trivial
  have hdataSize : v'.dataSize = v.dataSize := h.elements .dataSize trivial
  have hdataRoot : v'.dataRoot = v.dataRoot := h.elements .dataRoot trivial
  have hnum : getNumItems expert v' = getNumItems expert v := getNumItems_agrees h
  by_cases hidx : idx < getNumItems expert v
  case neg => simp only [parserGetItem, hnum, if_pos (Nat.not_lt.1 hidx)]
  rcases idx with _ | _ | _ | _ | _ | k
  · simp only [parserGetItem, hnum, htarget]
  · simp only [parserGetItem, hnum, hquantity]
  · simp only [parserGetItem, hnum, hreward]
  · simp only [parserGetItem, hnum, hlastTx]
  · simp only [parserGetItem, hnum, hdataSize]
  · simp only [parserGetItem, hnum, hdataRoot]
    by_cases hroot : k + 5 = 5 ∧ v.dataRoot.len ≠ 0
    · simp only [if_pos hroot]
    · simp only [if_neg hroot]
      rw [h.tag (tagIdx_lt hidx hroot)]

/-- Whether the items are valid depends on the elements in use only. -/
theorem validateItems_agrees {mem : Mem} {expert : Bool} {v v' : ParserTx} (h : v.Agrees v') (n idx : Nat) :
    validateItems P mem expert v' n idx = validateItems P mem expert v n idx := by
  induction n generalizing idx with
  | zero => rfl
  | succ n ih => rw [validateItems, validateItems, parserGetItem_agrees P h, ih (idx + 1)]

/-- The validation depends on the elements in use only. -/
theorem parserValidate_agrees {mem : Mem} {store : CryptoStore} {expert : Bool} {v v' : ParserTx} (h : v.Agrees v') :
    parserValidate P mem store expert v' = parserValidate P mem store expert v := by
  have howner : v'.owner = v.owner := h.elements .owner trivial
  have htx : validateTx mem store v' = validateTx mem store v := by
    simp only [validateTx, validateOwnerHalf, howner]
  rw [parserValidate, parserValidate, htx, getNumItems_agrees h, validateItems_agrees P h]

/-! ## Calls -/

end ParsedStateAux

open ParsedStateAux

end

end LedgerArweave
