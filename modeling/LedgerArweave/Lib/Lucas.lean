import Mathlib.Data.List.Prime
import Mathlib.NumberTheory.LucasPrimality

/-!
# Primes one above a multiple of a power of two

The test of Lucas for numbers `k * 2 ^ m + 1` whose factor `k` is known as a product of primes. The powers it asks for are taken
by repeated squaring (`squares`), which the kernel evaluates.
-/

namespace Lib

/-- The number squared `m` times, modulo `n`. -/
def squares (n : Nat) : (m : Nat) → Nat → Nat
  | 0, x => x
  | m + 1, x => squares n m (x * x % n)

theorem squares_mod (n m x : Nat) : squares n m x % n = x ^ 2 ^ m % n := by
  induction m generalizing x with
  | zero => rw [squares, Nat.pow_zero, Nat.pow_one]
  | succ m ih => rw [squares, ih, ← Nat.pow_mod, ← Nat.pow_two, ← Nat.pow_mul, Nat.pow_succ, Nat.mul_comm 2]

/-- The same of a number that is a power itself. -/
theorem squares_pow_mod (n m a k : Nat) : squares n m (a ^ k % n) % n = a ^ (k * 2 ^ m) % n := by
  rw [squares_mod, ← Nat.pow_mod, ← Nat.pow_mul]

/-- A power is `1` among the residues exactly when its remainder is. -/
theorem pow_cast_eq_one_iff {n : Nat} (hn : 1 < n) (a e : Nat) : (a : ZMod n) ^ e = 1 ↔ a ^ e % n = 1 := by
  rw [← Nat.cast_pow, ← Nat.cast_one, ZMod.natCast_eq_natCast_iff, Nat.ModEq, Nat.mod_eq_of_lt hn]

/-- `a` has order `n - 1` modulo `n`, where `n - 1 = k * 2 ^ (m + 1)` and the primes of `k` are listed: its power to the half of
`n - 1` is `-1`, and its powers to the other cofactors are not `1`. -/
theorem prime_of_squares {n m a : Nat} (ps : List Nat) (hps : ∀ p ∈ ps, p.Prime) (hn : n = ps.prod * 2 ^ (m + 1) + 1)
    (hhalf : squares n m (a ^ ps.prod % n) % n = n - 1)
    (hothers : ∀ p ∈ ps, squares n (m + 1) (a ^ (ps.prod / p) % n) % n ≠ 1) : n.Prime := by
  have hpos : 0 < ps.prod := List.prod_pos fun p hp => (hps p hp).pos
  have heven : n - 1 = 2 * (ps.prod * 2 ^ m) := by
    rw [hn, Nat.add_sub_cancel, Nat.pow_succ]
    ring
  have hhalfPos : 0 < ps.prod * 2 ^ m := Nat.mul_pos hpos (Nat.two_pow_pos m)
  have hone : 1 < n := by omega
  rw [squares_pow_mod] at hhalf
  -- the power to the half is `-1`
  have hminus : (a : ZMod n) ^ (ps.prod * 2 ^ m) = -1 := by
    have hcast : ((a ^ (ps.prod * 2 ^ m) : Nat) : ZMod n) = ((n - 1 : Nat) : ZMod n) := by
      rw [← hhalf, ZMod.natCast_mod]
    rw [← Nat.cast_pow, hcast, Nat.cast_sub hone.le, ZMod.natCast_self, Nat.cast_one, zero_sub]
  refine lucas_primality n a ?_ ?_
  · rw [heven, Nat.mul_comm, pow_mul, hminus, neg_one_sq]
  · intro q hq hdvd
    have hdvd' : q ∣ ps.prod * 2 ^ (m + 1) := by rwa [hn, Nat.add_sub_cancel] at hdvd
    rw [ne_eq, pow_cast_eq_one_iff hone]
    rcases (Nat.Prime.dvd_mul hq).1 hdvd' with hprod | htwo
    · obtain ⟨p, hp, hqp⟩ := (Prime.dvd_prod_iff hq.prime).1 hprod
      have heq : q = p := (Nat.prime_dvd_prime_iff_eq hq (hps p hp)).1 hqp
      have hquot : (n - 1) / q = ps.prod / p * 2 ^ (m + 1) := by
        rw [hn, Nat.add_sub_cancel, heq, Nat.div_mul_right_comm (List.dvd_prod hp)]
      rw [hquot, ← squares_pow_mod]
      exact hothers p hp
    · have heq : q = 2 := (Nat.prime_dvd_prime_iff_eq hq Nat.prime_two).1 (hq.dvd_of_dvd_pow htwo)
      rw [heq, heven, Nat.mul_div_cancel_left _ Nat.two_pos, hhalf]
      omega

end Lib
