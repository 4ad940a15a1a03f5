import LedgerArweave.Platform

/-!
# What the parser works on

`parser_txdef.h` and `parser_common.h`. A pointer into the transaction buffer is an offset into that region of memory (none is
`NULL`), so that a `parser_element_t` is a view: what it shows depends on what the region holds when it is read.
-/

namespace LedgerArweave

open Lib

/-- A region of memory: the bytes a pointer is an offset into. -/
abbrev Mem : Type := List UInt8

/-- `parser_element_t`. -/
structure ParserElement where
  len : Nat
  ptr : Option Nat
  deriving DecidableEq, Repr, Inhabited

/-- `parser_tag_t`. -/
structure ParserTag where
  key : ParserElement
  value : ParserElement
  deriving DecidableEq, Repr, Inhabited

/-- `parser_tx_t`. -/
structure ParserTx where
  format : ParserElement
  owner : ParserElement
  target : ParserElement
  quantity : ParserElement
  reward : ParserElement
  lastTx : ParserElement
  tagsCount : Nat
  tags : Vector ParserTag 16
  dataSize : ParserElement
  dataRoot : ParserElement
  deriving DecidableEq, Repr

/-- `parser_context_t`. -/
structure ParserContext where
  buffer : Option Nat
  bufferLen : Nat
  offset : Nat
  deriving DecidableEq, Repr

/-- The object as the loader leaves it: all zero. -/
def ParserTx.zero : ParserTx :=
  let e : ParserElement := ⟨0, none⟩
  ⟨e, e, e, e, e, e, 0, Vector.replicate 16 ⟨e, e⟩, e, e⟩

/-- The context as the loader leaves it: all zero. -/
def ParserContext.zero : ParserContext := ⟨none, 0, 0⟩

/-- The bytes an element shows. -/
def ParserElement.bytes (mem : Mem) (v : ParserElement) : List UInt8 :=
  match v.ptr with
  | some p => slice mem p v.len
  | none => []

/-- `tags[i]`. An index past the array reads whatever lies behind it; the model reads an empty tag. -/
def ParserTx.tag (v : ParserTx) (i : Nat) : ParserTag := v.tags[i]?.getD ⟨⟨0, none⟩, ⟨0, none⟩⟩

/-! ## Addresses of the elements -/

/-- The address of an element of the transaction object. -/
inductive ElementLoc where
  | format | owner | target | quantity | reward | lastTx
  | tagKey (i : Nat) | tagValue (i : Nat)
  | dataSize | dataRoot
  deriving DecidableEq, Repr

/-- The addresses that exist: the tags of the array. -/
def ElementLoc.InBounds : ElementLoc → Prop
  | .tagKey i => i < 16
  | .tagValue i => i < 16
  | _ => True

/-- The element at an address. -/
def ParserTx.element (v : ParserTx) : ElementLoc → ParserElement
  | .format => v.format
  | .owner => v.owner
  | .target => v.target
  | .quantity => v.quantity
  | .reward => v.reward
  | .lastTx => v.lastTx
  | .tagKey i => (v.tag i).key
  | .tagValue i => (v.tag i).value
  | .dataSize => v.dataSize
  | .dataRoot => v.dataRoot

/-- Write the element at an address. -/
def ParserTx.setElement (v : ParserTx) : ElementLoc → ParserElement → ParserTx
  | .format, e => { v with format := e }
  | .owner, e => { v with owner := e }
  | .target, e => { v with target := e }
  | .quantity, e => { v with quantity := e }
  | .reward, e => { v with reward := e }
  | .lastTx, e => { v with lastTx := e }
  | .tagKey i, e => { v with tags := v.tags.setIfInBounds i { v.tag i with key := e } }
  | .tagValue i, e => { v with tags := v.tags.setIfInBounds i { v.tag i with value := e } }
  | .dataSize, e => { v with dataSize := e }
  | .dataRoot, e => { v with dataRoot := e }

theorem ParserTx.tag_set_self (v : ParserTx) {i : Nat} (hi : i < 16) (t : ParserTag) :
    ({ v with tags := v.tags.setIfInBounds i t } : ParserTx).tag i = t := by
  simp [ParserTx.tag, hi]

theorem ParserTx.tag_set_ne (v : ParserTx) {i j : Nat} (h : i ≠ j) (t : ParserTag) :
    ({ v with tags := v.tags.setIfInBounds i t } : ParserTx).tag j = v.tag j := by
  simp [ParserTx.tag, Vector.getElem?_setIfInBounds_ne h]

@[simp] theorem ParserTx.element_setElement_self (v : ParserTx) {l : ElementLoc} (hl : l.InBounds) (e : ParserElement) :
    (v.setElement l e).element l = e := by
  cases l with
  | tagKey i => simp only [setElement, element, v.tag_set_self hl]
  | tagValue i => simp only [setElement, element, v.tag_set_self hl]
  | _ => rfl

/-- Writing one element leaves the others alone. -/
theorem ParserTx.element_setElement_ne (v : ParserTx) {l l' : ElementLoc} (h : l ≠ l') (e : ParserElement) :
    (v.setElement l e).element l' = v.element l' := by
  have key : ∀ (i : Nat) (t : ParserTag) (l' : ElementLoc),
      (t.key = (v.tag i).key ∨ .tagKey i ≠ l') → (t.value = (v.tag i).value ∨ .tagValue i ≠ l') → i < 16 →
      ({ v with tags := v.tags.setIfInBounds i t } : ParserTx).element l' = v.element l' := by
    intro i t l' hk hv hi
    cases l' with
    | tagKey j =>
      by_cases hij : i = j
      · subst hij
        simp only [element, v.tag_set_self hi]
        exact hk.resolve_right (fun h => h rfl)
      · simp only [element, v.tag_set_ne hij]
    | tagValue j =>
      by_cases hij : i = j
      · subst hij
        simp only [element, v.tag_set_self hi]
        exact hv.resolve_right (fun h => h rfl)
      · simp only [element, v.tag_set_ne hij]
    | _ => rfl
  have oob : ∀ (i : Nat) (t : ParserTag), ¬i < 16 → v.tags.setIfInBounds i t = v.tags := by
    intro i t hi
    exact Vector.setIfInBounds_eq_of_size_le (by omega)
  cases l with
  | tagKey i =>
    by_cases hi : i < 16
    · exact key i _ l' (Or.inr h) (Or.inl rfl) hi
    · simp only [setElement, oob i _ hi]
  | tagValue i =>
    by_cases hi : i < 16
    · exact key i _ l' (Or.inl rfl) (Or.inr h) hi
    · simp only [setElement, oob i _ hi]
  | _ => cases l' <;> first | rfl | exact absurd rfl h

/-- Writing an element leaves the tag count alone. -/
@[simp] theorem ParserTx.tagsCount_setElement (v : ParserTx) (l : ElementLoc) (e : ParserElement) :
    (v.setElement l e).tagsCount = v.tagsCount := by
  cases l <;> rfl

/-- The second of two writes to the same address is the one that stands. -/
theorem ParserTx.setElement_setElement (v : ParserTx) (l : ElementLoc) (e e' : ParserElement) :
    (v.setElement l e).setElement l e' = v.setElement l e' := by
  cases l with
  | tagKey i =>
    by_cases hi : i < 16
    · simp only [setElement, v.tag_set_self hi, Vector.setIfInBounds_setIfInBounds]
    · have : ∀ (w : Vector ParserTag 16) t, w.setIfInBounds i t = w := fun w t =>
        Vector.setIfInBounds_eq_of_size_le (by omega)
      simp only [setElement, this]
  | tagValue i =>
    by_cases hi : i < 16
    · simp only [setElement, v.tag_set_self hi, Vector.setIfInBounds_setIfInBounds]
    · have : ∀ (w : Vector ParserTag 16) t, w.setIfInBounds i t = w := fun w t =>
        Vector.setIfInBounds_eq_of_size_le (by omega)
      simp only [setElement, this]
  | _ => rfl

/-- Writing back what an address holds changes nothing. -/
theorem ParserTx.setElement_element (v : ParserTx) (l : ElementLoc) : v.setElement l (v.element l) = v := by
  have htag : ∀ i, v.tags.setIfInBounds i (v.tag i) = v.tags := by
    intro i
    apply Vector.ext
    intro j hj
    rw [Vector.getElem_setIfInBounds hj]
    split
    · rename_i h
      subst h
      simp [ParserTx.tag, hj]
    · rfl
  cases l with
  | tagKey i => simp only [setElement, element, htag]
  | tagValue i => simp only [setElement, element, htag]
  | _ => rfl

end LedgerArweave
