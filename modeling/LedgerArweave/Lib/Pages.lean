import LedgerArweave.Lib.Bytes

/-!
# A text cut into pages

Pages of one size, the last one shorter. Put end to end, as many pages as a text has are the text, and fewer are not
(`flatten_pages`, `length_flatten_lt`).
-/

namespace Lib

/-- The number of pages of `size` bytes that `len` bytes take. -/
def numPages (size len : Nat) : Nat := (len + size - 1) / size

theorem le_numPages_mul {size : Nat} (h : 0 < size) (len : Nat) : len ≤ numPages size len * size := by
  have hdiv := Nat.div_add_mod (len + size - 1) size
  have hmod := Nat.mod_lt (len + size - 1) h
  rw [Nat.mul_comm] at hdiv
  unfold numPages
  omega

/-- The last page is not all padding. -/
theorem padding_lt {size : Nat} (h : 0 < size) (len : Nat) : numPages size len * size - len < size := by
  have hle := Nat.div_mul_le_self (len + size - 1) size
  unfold numPages
  omega

/-- The last page is not empty, and no page before it ends behind the text. -/
theorem mul_lt_of_lt_numPages {size len k : Nat} (h : 0 < size) (hk : k < numPages size len) : k * size < len := by
  have hle : (k + 1) * size ≤ len + size - 1 := (Nat.le_div_iff_mul_le h).1 hk
  rw [Nat.add_mul, Nat.one_mul] at hle
  omega

/-- A text that fits one page takes one page, or none. -/
theorem numPages_le_one {size len : Nat} (h : 0 < size) (hlen : len ≤ size) : numPages size len ≤ 1 :=
  Nat.le_of_lt_succ ((Nat.div_lt_iff_lt_mul h).2 (by omega))

/-- The pages of a text, put end to end. -/
theorem flatten_pages {α : Type} (text : List α) (size : Nat) :
    ∀ k, ((List.range k).map fun i => slice text (i * size) size).flatten = text.take (k * size) := by
  intro k
  induction k with
  | zero => simp
  | succ k ih =>
    rw [List.range_succ, List.map_append, List.flatten_append, ih, List.map_singleton, List.flatten_singleton, slice,
      Nat.succ_mul, List.take_add]

/-- The pages of a text that each fill their room, put end to end: zeros stand behind the text only. The induction is on the
number of pages; before the last one every page is full. -/
theorem flatten_padded_pages {text : List UInt8} {size : Nat} (h : 0 < size) :
    ∀ k ≤ numPages size text.length,
      ((List.range k).map fun i => slice text (i * size) size ++
        List.replicate (size - (slice text (i * size) size).length) 0).flatten =
      text.take (k * size) ++ List.replicate (k * size - text.length) 0 := by
  intro k
  induction k with
  | zero => simp
  | succ k ih =>
    intro hk
    have hfull : k * size < text.length := mul_lt_of_lt_numPages h hk
    have hslice : (slice text (k * size) size).length = min size (text.length - k * size) := by
      rw [slice, List.length_take, List.length_drop]
    have hpad : size - (slice text (k * size) size).length = (k + 1) * size - text.length := by
      rw [hslice, Nat.succ_mul]
      omega
    rw [List.range_succ, List.map_append, List.flatten_append, ih (Nat.le_of_succ_le hk), List.map_singleton,
      List.flatten_singleton, Nat.sub_eq_zero_of_le (Nat.le_of_lt hfull), List.replicate_zero, List.append_nil, hpad, slice,
      Nat.succ_mul, List.take_add, List.append_assoc]

/-- Blocks of a bounded length, put end to end. -/
theorem length_flatten_le {α : Type} {size : Nat} (block : Nat → List α) (h : ∀ i, (block i).length ≤ size) :
    ∀ k, ((List.range k).map block).flatten.length ≤ k * size := by
  intro k
  induction k with
  | zero => simp
  | succ k ih =>
    rw [List.range_succ, List.map_append, List.flatten_append, List.length_append, List.map_singleton,
      List.flatten_singleton, Nat.succ_mul]
    exact Nat.add_le_add ih (h k)

/-- Fewer blocks than the text has pages are shorter than the text. -/
theorem length_flatten_lt {α : Type} {size len k : Nat} (h : 0 < size) (block : Nat → List α)
    (hblock : ∀ i, (block i).length ≤ size) (hk : k < numPages size len) :
    ((List.range k).map block).flatten.length < len :=
  Nat.lt_of_le_of_lt (length_flatten_le block hblock k) (mul_lt_of_lt_numPages h hk)

end Lib
