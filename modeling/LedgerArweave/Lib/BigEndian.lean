import Mathlib.Data.Nat.Digits.Lemmas

/-!
# Big-endian numbers

The number a list of bytes stands for, most significant byte first, and the bytes of a number.
-/

namespace Lib

/-- The number a list of bytes stands for. -/
def ofBe (l : List UInt8) : Nat := Nat.ofDigits 256 (l.reverse.map UInt8.toNat)

/-- The `len` low bytes of a number. -/
def toBe : (len : Nat) → Nat → List UInt8
  | 0, _ => []
  | len + 1, n => toBe len (n / 256) ++ [UInt8.ofNat n]

theorem ofBe_append (a b : List UInt8) : ofBe (a ++ b) = ofBe a * 256 ^ b.length + ofBe b := by
  rw [ofBe, List.reverse_append, List.map_append, Nat.ofDigits_append, List.length_map, List.length_reverse, ofBe, ofBe,
    Nat.add_comm, Nat.mul_comm]

theorem ofBe_singleton (b : UInt8) : ofBe [b] = b.toNat := by
  rw [ofBe, List.reverse_singleton, List.map_singleton, Nat.ofDigits_singleton]

theorem ofBe_lt (l : List UInt8) : ofBe l < 256 ^ l.length := by
  have hlt := Nat.ofDigits_lt_base_pow_length (b := 256) (by decide) (l := l.reverse.map UInt8.toNat) (by
    intro d hd
    obtain ⟨x, -, rfl⟩ := List.mem_map.1 hd
    exact x.toNat_lt)
  rwa [List.length_map, List.length_reverse] at hlt

/-- A list that starts with a byte whose top bit is set stands for a number whose top bit is set. -/
theorem le_ofBe_cons {b : UInt8} (hb : 128 ≤ b.toNat) (l : List UInt8) : 2 ^ (8 * l.length + 7) ≤ ofBe (b :: l) := by
  have hsplit := ofBe_append [b] l
  rw [List.singleton_append, ofBe_singleton] at hsplit
  have hpow : 2 ^ (8 * l.length + 7) = 128 * 256 ^ l.length := by
    rw [Nat.pow_add, Nat.pow_mul, Nat.mul_comm]
  rw [hsplit, hpow]
  exact Nat.le_trans (Nat.mul_le_mul_right _ hb) (Nat.le_add_right _ _)

@[simp] theorem length_toBe (len n : Nat) : (toBe len n).length = len := by
  induction len generalizing n with
  | zero => rfl
  | succ len ih => rw [toBe, List.length_append, ih, List.length_singleton]

/-- The bytes of a number in two parts. -/
theorem toBe_add (a b n : Nat) : toBe (a + b) n = toBe a (n / 256 ^ b) ++ toBe b n := by
  induction b generalizing n with
  | zero => rw [Nat.add_zero, Nat.pow_zero, Nat.div_one, toBe, List.append_nil]
  | succ b ih => rw [← Nat.add_assoc, toBe, ih, Nat.div_div_eq_div_mul, Nat.pow_succ', toBe, List.append_assoc]

/-- Only the low bytes of a number count. -/
theorem toBe_mod (len n : Nat) : toBe len (n % 256 ^ len) = toBe len n := by
  induction len generalizing n with
  | zero => rfl
  | succ len ih =>
    have hdiv : n % 256 ^ (len + 1) / 256 = n / 256 % 256 ^ len := by
      rw [Nat.pow_succ', Nat.mod_mul_right_div_self]
    have hlast : UInt8.ofNat (n % 256 ^ (len + 1)) = UInt8.ofNat n := by
      apply UInt8.toNat.inj
      rw [UInt8.toNat_ofNat', UInt8.toNat_ofNat', Nat.pow_succ', Nat.mod_mul_right_mod]
    rw [toBe, toBe, hdiv, ih, hlast]

theorem ofBe_toBe {len n : Nat} (h : n < 256 ^ len) : ofBe (toBe len n) = n := by
  induction len generalizing n with
  | zero =>
    rw [Nat.pow_zero, Nat.lt_one_iff] at h
    rw [h]
    rfl
  | succ len ih =>
    have hdiv : n / 256 < 256 ^ len := Nat.div_lt_of_lt_mul (by rwa [Nat.pow_succ, Nat.mul_comm] at h)
    rw [toBe, ofBe_append, ih hdiv, ofBe_singleton, List.length_singleton, Nat.pow_one, UInt8.toNat_ofNat', Nat.mul_comm]
    exact Nat.div_add_mod n 256

end Lib
