import Mathlib.Data.UInt
import Mathlib.Tactic.Common

/-!
# UTF-8, read with replacement

The decoder of the encoding standard that never fails: every maximal start of a character that does not go on, and every byte
that starts none, is read as the replacement character. It goes through the bytes once and keeps what it has of a character:
how many more bytes follow the next one, the bounds of the next one, and the bits read so far.
-/

namespace Lib

/-- Where the decoder stands: between two characters, or within one. -/
inductive Utf8State where
  | between
  | within (more : Nat) (low high : UInt8) (bits : Nat)

/-- U+FFFD. -/
def replacementChar : Char := Char.ofNat 0xfffd

/-- A byte between two characters: the characters it completes, and where the decoder stands then. -/
def utf8Lead (b : UInt8) : List Char × Utf8State :=
  if b ≤ 0x7f then ([Char.ofNat b.toNat], .between)
  else if 0xc2 ≤ b ∧ b ≤ 0xdf then ([], .within 0 0x80 0xbf (b.toNat % 32))
  else if 0xe0 ≤ b ∧ b ≤ 0xef then
    ([], .within 1 (if b = 0xe0 then 0xa0 else 0x80) (if b = 0xed then 0x9f else 0xbf) (b.toNat % 16))
  else if 0xf0 ≤ b ∧ b ≤ 0xf4 then
    ([], .within 2 (if b = 0xf0 then 0x90 else 0x80) (if b = 0xf4 then 0x8f else 0xbf) (b.toNat % 8))
  else ([replacementChar], .between)

/-- A byte: one that a character does not go on with starts over. -/
def utf8Next : Utf8State → UInt8 → List Char × Utf8State
  | .between, b => utf8Lead b
  | .within more low high bits, b =>
    if low ≤ b ∧ b ≤ high then
      match more with
      | 0 => ([Char.ofNat (bits * 64 + b.toNat % 64)], .between)
      | more + 1 => ([], .within more 0x80 0xbf (bits * 64 + b.toNat % 64))
    else (replacementChar :: (utf8Lead b).1, (utf8Lead b).2)

/-- The characters of some bytes, from where the decoder stands. -/
def utf8Chars : Utf8State → List UInt8 → List Char
  | .between, [] => []
  | .within .., [] => [replacementChar]
  | s, b :: l => (utf8Next s b).1 ++ utf8Chars (utf8Next s b).2 l

/-- The text of some bytes. -/
def utf8Text (l : List UInt8) : String := String.ofList (utf8Chars .between l)

example : utf8Text [0xe2, 0x82, 0xac, 0x41, 0xe2, 0x82, 0xf4, 0x90] = "€A\ufffd\ufffd\ufffd" := by decide

/-- Bytes below 128 are the characters of their numbers. -/
theorem utf8Text_of_ascii {l : List UInt8} (h : ∀ b ∈ l, b ≤ 0x7f) :
    utf8Text l = String.ofList (l.map fun b => Char.ofNat b.toNat) := by
  suffices hchars : utf8Chars .between l = l.map fun b => Char.ofNat b.toNat from congrArg String.ofList hchars
  induction l with
  | nil => rfl
  | cons b l ih =>
    have hlead : utf8Lead b = ([Char.ofNat b.toNat], .between) := if_pos (h b List.mem_cons_self)
    rw [utf8Chars, utf8Next, hlead, ih fun c hc => h c (List.mem_cons_of_mem _ hc)]
    rfl

end Lib
