import LedgerArweave.Lib.Sextets
import Mathlib.Data.Nat.Bitwise

/-!
# The bits of a list of numbers

A list of numbers of `w` bits as the list of their bits, most significant bits first. The groups of six bits of a list of bytes
have the bits of the bytes, and fewer than six zeros behind them; no other groups do (`eq_sextets_of_bits`).
-/

namespace Lib

/-- The `w` low bits of a number, most significant bit first. -/
def bits : (w : Nat) → Nat → List Bool
  | 0, _ => []
  | w + 1, n => n.testBit w :: bits w n

/-- A number of `w` bits has `w` of them. -/
@[simp] theorem length_bits (w n : Nat) : (bits w n).length = w := by
  induction w with
  | zero => rfl
  | succ w ih => rw [bits, List.length_cons, ih]

/-- The high bits of a number, then the low ones. -/
theorem bits_add (w k n : Nat) : bits (w + k) n = bits w (n / 2 ^ k) ++ bits k n := by
  induction w with
  | zero => rw [Nat.zero_add, bits, List.nil_append]
  | succ w ih =>
    rw [Nat.add_right_comm, bits, bits, List.cons_append, ih, Nat.testBit_div_two_pow]

/-- Only the low bits of a number count. -/
theorem bits_mod (w n : Nat) : bits w (n % 2 ^ w) = bits w n := by
  have low : ∀ k ≤ w, bits k (n % 2 ^ w) = bits k n := by
    intro k
    induction k with
    | zero => exact fun _ => rfl
    | succ k ih =>
      intro hk
      rw [bits, bits, ih (by omega), Nat.testBit_mod_two_pow, decide_eq_true (by omega), Bool.true_and]
  exact low w (Nat.le_refl w)

/-- A number made of a high and a low part has the bits of the one, then those of the other. -/
theorem bits_mul_add (w k hi lo : Nat) (hlo : lo < 2 ^ k) :
    bits (w + k) (hi * 2 ^ k + lo) = bits w hi ++ bits k lo := by
  have hdiv : (hi * 2 ^ k + lo) / 2 ^ k = hi := by
    rw [Nat.mul_comm, Nat.mul_add_div (Nat.two_pow_pos k), Nat.div_eq_of_lt hlo, Nat.add_zero]
  have hmod : (hi * 2 ^ k + lo) % 2 ^ k = lo := by
    rw [Nat.mul_comm, Nat.mul_add_mod, Nat.mod_eq_of_lt hlo]
  rw [bits_add, hdiv, ← bits_mod k (hi * 2 ^ k + lo), hmod]

/-- The bits of zero. -/
theorem bits_zero (w : Nat) : bits w 0 = List.replicate w false := by
  induction w with
  | zero => rfl
  | succ w ih => rw [bits, ih, Nat.zero_testBit, List.replicate_succ]

/-- Bits determine a number that fits them. -/
theorem bits_inj {w m n : Nat} (hm : m < 2 ^ w) (hn : n < 2 ^ w) (h : bits w m = bits w n) : m = n := by
  have low : ∀ k, bits k m = bits k n → ∀ i < k, m.testBit i = n.testBit i := by
    intro k
    induction k with
    | zero => exact fun _ i hi => absurd hi (Nat.not_lt_zero i)
    | succ k ih =>
      intro hk i hi
      simp only [bits, List.cons.injEq] at hk
      rcases Nat.lt_succ_iff_lt_or_eq.1 hi with hlt | rfl
      · exact ih hk.2 i hlt
      · exact hk.1
  refine Nat.eq_of_testBit_eq fun i => ?_
  by_cases hi : i < w
  · exact low w h i hi
  · have hpow : 2 ^ w ≤ 2 ^ i := Nat.pow_le_pow_right (by decide) (by omega)
    rw [Nat.testBit_eq_false_of_lt (by omega), Nat.testBit_eq_false_of_lt (by omega)]

/-- The bits of a list of numbers. -/
theorem length_flatMap_bits (w : Nat) (l : List Nat) : (l.flatMap (bits w)).length = w * l.length := by
  induction l with
  | nil => rfl
  | cons a l ih =>
    rw [List.flatMap_cons, List.length_append, length_bits, ih, List.length_cons, Nat.mul_succ, Nat.add_comm]

/-- As many numbers of `w` bits with the same bits are the same. -/
theorem flatMap_bits_inj {w : Nat} {l m : List Nat} (hlen : l.length = m.length) (hl : ∀ i ∈ l, i < 2 ^ w)
    (hm : ∀ i ∈ m, i < 2 ^ w) (h : l.flatMap (bits w) = m.flatMap (bits w)) : l = m := by
  induction l generalizing m with
  | nil => exact (List.length_eq_zero_iff.1 hlen.symm).symm
  | cons a l ih =>
    cases m with
    | nil => cases hlen
    | cons b m =>
      rw [List.flatMap_cons, List.flatMap_cons] at h
      obtain ⟨hab, hrest⟩ := List.append_inj h (by rw [length_bits, length_bits])
      rw [bits_inj (hl a (List.mem_cons_self ..)) (hm b (List.mem_cons_self ..)) hab,
        ih (Nat.succ.inj hlen) (fun i hi => hl i (List.mem_cons_of_mem _ hi)) (fun i hi => hm i (List.mem_cons_of_mem _ hi))
          hrest]

/-- The bits of a list of bytes. -/
def byteBits (l : List UInt8) : List Bool := (l.map UInt8.toNat).flatMap (bits 8)

@[simp] theorem byteBits_nil : byteBits [] = [] := rfl

theorem byteBits_cons (a : UInt8) (l : List UInt8) : byteBits (a :: l) = bits 8 a.toNat ++ byteBits l := rfl

/-- The groups of six bits of a list of bytes have the bits of the bytes, and zeros behind them. -/
theorem flatMap_bits_sextets (l : List UInt8) :
    ∃ k < 6, (sextets l).flatMap (bits 6) = byteBits l ++ List.replicate k false := by
  have hsplit : ∀ (w k n : Nat), bits (w + k) n = bits w (n / 2 ^ k) ++ bits k (n % 2 ^ k) := by
    intro w k n
    rw [bits_mod, bits_add]
  induction l using sextets.induct with
  | case1 => exact ⟨0, by decide, rfl⟩
  | case2 a =>
    have h1 := bits_mul_add 2 4 (a.toNat % 4) 0 (by decide)
    have h2 := hsplit 6 2 a.toNat
    refine ⟨4, by decide, ?_⟩
    simp only [Nat.reducePow, Nat.reduceAdd, Nat.add_zero, bits_zero] at h1 h2
    simp only [sextets, List.flatMap_cons, List.flatMap_nil, byteBits_cons, h1, h2, byteBits_nil, List.append_nil,
      List.append_assoc]
  | case3 a b =>
    have hb := b.toNat_lt
    have h1 := bits_mul_add 2 4 (a.toNat % 4) (b.toNat / 16) (by omega)
    have h2 := bits_mul_add 4 2 (b.toNat % 16) 0 (by decide)
    have h3 := hsplit 6 2 a.toNat
    have h4 := hsplit 4 4 b.toNat
    refine ⟨2, by decide, ?_⟩
    simp only [Nat.reducePow, Nat.reduceAdd, Nat.add_zero, bits_zero] at h1 h2 h3 h4
    simp only [sextets, List.flatMap_cons, List.flatMap_nil, byteBits_cons, h1, h2, h3, h4, byteBits_nil, List.append_nil,
      List.append_assoc]
  | case4 a b c rest ih =>
    obtain ⟨k, hk, hrest⟩ := ih
    have hb := b.toNat_lt
    have hc := c.toNat_lt
    have h1 := bits_mul_add 2 4 (a.toNat % 4) (b.toNat / 16) (by omega)
    have h2 := bits_mul_add 4 2 (b.toNat % 16) (c.toNat / 64) (by omega)
    have h3 := hsplit 6 2 a.toNat
    have h4 := hsplit 4 4 b.toNat
    have h5 := hsplit 2 6 c.toNat
    refine ⟨k, hk, ?_⟩
    simp only [Nat.reducePow, Nat.reduceAdd] at h1 h2 h3 h4 h5
    simp only [sextets, List.flatMap_cons, byteBits_cons, h1, h2, h3, h4, h5, hrest, List.append_assoc]

/-- No other groups of six bits have the bits of the bytes and fewer than six zeros behind them. -/
theorem eq_sextets_of_bits {groups : List Nat} {l : List UInt8} (hg : ∀ i ∈ groups, i < 64) {k : Nat} (hk : k < 6)
    (h : groups.flatMap (bits 6) = byteBits l ++ List.replicate k false) : groups = sextets l := by
  obtain ⟨k', hk', h'⟩ := flatMap_bits_sextets l
  have hlen := congrArg List.length h
  have hlen' := congrArg List.length h'
  rw [length_flatMap_bits, List.length_append, List.length_replicate] at hlen hlen'
  obtain rfl : k = k' := by omega
  exact flatMap_bits_inj (by omega) hg (sextets_lt l) (h.trans h'.symm)

end Lib
