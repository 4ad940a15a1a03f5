import Mathlib.Data.List.Basic

/-!
# Iterated hashing

A hash function takes its message in blocks of `size` symbols. A stream is what it made of the full blocks so far, and the symbols
that wait for the next block, with the invariant that they are less than one. Pushing symbols into a stream piece by piece is
pushing them at once, however they were cut (`Stream.push_push`).
-/

namespace Lib

section

variable {σ α : Type} (size : Nat) (compress : σ → List α → σ)

/-! ## Blocks of a list -/

/-- Compress `n` blocks from the front of a list. -/
def absorbBlocks : (n : Nat) → σ → List α → σ
  | 0, s, _ => s
  | n + 1, s, l => absorbBlocks n (compress s (l.take size)) (l.drop size)

/-- Compress all full blocks of a list. -/
def absorb (s : σ) (l : List α) : σ := absorbBlocks size compress (l.length / size) s l

/-- What is left of a list behind its full blocks. -/
def leftover (l : List α) : List α := l.drop (size * (l.length / size))

/-- What is left is shorter than a block. -/
theorem length_leftover (l : List α) : (leftover size l).length = l.length % size := by
  have := Nat.mod_add_div l.length size
  rw [leftover, List.length_drop]
  omega

/-- Less than a block changes nothing. -/
theorem absorb_of_lt {l : List α} (h : l.length < size) (s : σ) : absorb size compress s l = s := by
  rw [absorb, Nat.div_eq_of_lt h, absorbBlocks]

/-- Less than a block is left as it is. -/
theorem leftover_of_lt {l : List α} (h : l.length < size) : leftover size l = l := by
  rw [leftover, Nat.div_eq_of_lt h, Nat.mul_zero, List.drop_zero]

section

variable {size} (hsize : 0 < size)

include hsize

/-- One block more in front. -/
theorem absorb_block_append {b : List α} (hb : b.length = size) (s : σ) (l : List α) :
    absorb size compress s (b ++ l) = absorb size compress (compress s b) l := by
  have hcount : (b ++ l).length / size = l.length / size + 1 := by
    rw [List.length_append, hb, Nat.add_div_left _ hsize]
  have hdrop : (b ++ l).drop size = l := List.drop_left' hb
  have htake : (b ++ l).take size = b := List.take_left' hb
  rw [absorb, hcount, absorbBlocks, htake, hdrop, absorb]

/-- A block in front does not change what is left. -/
theorem leftover_block_append {b : List α} (hb : b.length = size) (l : List α) : leftover size (b ++ l) = leftover size l := by
  have hcount : (b ++ l).length / size = l.length / size + 1 := by
    rw [List.length_append, hb, Nat.add_div_left _ hsize]
  have hdrop : (b ++ l).drop size = l := List.drop_left' hb
  rw [leftover, hcount, Nat.mul_succ, Nat.add_comm _ size, ← List.drop_drop, hdrop, leftover]

/-- A list absorbed in front of another one leaves what was behind its full blocks to it. -/
theorem absorb_append (s : σ) (l m : List α) :
    absorb size compress s (l ++ m) = absorb size compress (absorb size compress s l) (leftover size l ++ m) ∧
      leftover size (l ++ m) = leftover size (leftover size l ++ m) := by
  generalize hn : l.length / size = n
  induction n generalizing s l with
  | zero =>
    have hlt : l.length < size := (Nat.div_eq_zero_iff_lt hsize).1 hn
    rw [absorb_of_lt size compress hlt, leftover_of_lt size hlt]
    exact ⟨rfl, rfl⟩
  | succ n ih =>
    have hlen : size ≤ l.length := by
      refine Nat.le_of_not_lt fun hlt => ?_
      rw [Nat.div_eq_of_lt hlt] at hn
      cases hn
    obtain ⟨b, r, rfl, hb⟩ : ∃ b r, l = b ++ r ∧ b.length = size :=
      ⟨l.take size, l.drop size, (List.take_append_drop _ _).symm, List.length_take_of_le hlen⟩
    rw [List.length_append, hb, Nat.add_div_left _ hsize, Nat.succ.injEq] at hn
    rw [List.append_assoc, absorb_block_append compress hsize hb, absorb_block_append compress hsize hb,
      leftover_block_append hsize hb, leftover_block_append hsize hb]
    exact ih (compress s b) r hn

end

end

/-! ## Streams -/

/-- The state after the full blocks of what was pushed, and the symbols behind them. -/
@[ext]
structure Stream (σ α : Type) (size : Nat) where
  state : σ
  pending : List α
  short : pending.length < size

namespace Stream

variable {σ α : Type} {size : Nat} (compress : σ → List α → σ)

/-- The stream that nothing was pushed into. -/
def start (hsize : 0 < size) (s : σ) : Stream σ α size := ⟨s, [], hsize⟩

/-- A stream takes some symbols. -/
def push (st : Stream σ α size) (l : List α) : Stream σ α size where
  state := absorb size compress st.state (st.pending ++ l)
  pending := leftover size (st.pending ++ l)
  short := by
    rw [length_leftover]
    exact Nat.mod_lt _ (Nat.zero_lt_of_lt st.short)

/-- However a list is cut, pushing its parts is pushing it. -/
theorem push_push (st : Stream σ α size) (l m : List α) : (st.push compress l).push compress m = st.push compress (l ++ m) := by
  have hsize : 0 < size := Nat.zero_lt_of_lt st.short
  obtain ⟨hstate, hpending⟩ := absorb_append compress hsize st.state (st.pending ++ l) m
  rw [List.append_assoc] at hstate hpending
  ext1
  · exact hstate.symm
  · exact hpending.symm

/-- Pushing nothing. -/
theorem push_nil (st : Stream σ α size) : st.push compress [] = st := by
  ext1
  · simp only [push, List.append_nil]
    exact absorb_of_lt size compress st.short st.state
  · simp only [push, List.append_nil]
    exact leftover_of_lt size st.short

/-- Symbols that do not fill the block wait. -/
theorem push_of_lt (st : Stream σ α size) {l : List α} (h : (st.pending ++ l).length < size) :
    st.push compress l = ⟨st.state, st.pending ++ l, h⟩ := by
  ext1
  · exact absorb_of_lt size compress h st.state
  · exact leftover_of_lt size h

/-- Symbols that fill the block are compressed with those that waited. -/
theorem push_of_fill (st : Stream σ α size) {l : List α} (h : (st.pending ++ l).length = size) :
    st.push compress l = start (Nat.zero_lt_of_lt st.short) (compress st.state (st.pending ++ l)) := by
  have hsize : 0 < size := Nat.zero_lt_of_lt st.short
  have hone := absorb_block_append compress hsize h st.state []
  have hrest := leftover_block_append hsize h []
  rw [List.append_nil] at hone hrest
  ext1
  · simp only [push, start, hone]
    exact absorb_of_lt size compress (l := []) hsize _
  · simp only [push, start, hrest]
    exact leftover_of_lt size (l := []) hsize

end Stream

end Lib
