import Mathlib.Algebra.Order.Field.Power
import Mathlib.Data.Int.Log
import Mathlib.Data.Rat.Floor
import Mathlib.Tactic.Ring

/-!
# Double precision numbers

The numbers of the binary64 format by the rationals they stand for, rounding to the nearest one with ties to the even one, and
the addition and the order of such numbers. The sign of a zero is left out: no operation here tells the two zeros apart.
-/

namespace Lib

/-- The nearest integer, the even one of two that are equally near. -/
def roundEven (q : ℚ) : ℤ :=
  if q - ⌊q⌋ < 1 / 2 then ⌊q⌋
  else if 1 / 2 < q - ⌊q⌋ then ⌊q⌋ + 1
  else ⌊q⌋ + ⌊q⌋ % 2

/-- The distance between two neighbours in the format, at a positive number: 52 binary places below its leading one, but never
below the place of the smallest number there is. -/
def spacing (q : ℚ) : ℚ := 2 ^ max (Int.log 2 q - 52) (-1074)

/-- A positive number rounded to the multiples of the distance there. -/
def roundMagnitude (q : ℚ) : ℚ := roundEven (q / spacing q) * spacing q

/-- A number of the format. -/
inductive Double where
  | nan
  | inf (negative : Bool)
  | finite (q : ℚ)
  deriving DecidableEq

namespace Double

/-- The number of the format nearest to a rational. -/
def ofRat (q : ℚ) : Double :=
  if 2 ^ 1024 ≤ roundMagnitude |q| then .inf (q < 0)
  else .finite (if q < 0 then -roundMagnitude |q| else roundMagnitude |q|)

/-- Addition. -/
def add : Double → Double → Double
  | .finite a, .finite b => ofRat (a + b)
  | .inf s, .inf t => if s = t then .inf s else .nan
  | .inf s, .finite _ => .inf s
  | .finite _, .inf t => .inf t
  | .nan, _ => .nan
  | _, .nan => .nan

/-- Whether a number is less than another; nothing is when one of them is no number. -/
def lt : Double → Double → Bool
  | .finite a, .finite b => a < b
  | .inf s, .finite _ => s
  | .finite _, .inf t => !t
  | .inf s, .inf t => s && !t
  | .nan, _ => false
  | _, .nan => false

/-- Whether a number is at most another; nothing is when one of them is no number. -/
def le : Double → Double → Bool
  | .finite a, .finite b => a ≤ b
  | .inf s, .finite _ => s
  | .finite _, .inf t => !t
  | .inf s, .inf t => s || !t
  | .nan, _ => false
  | _, .nan => false

end Double

/-! ## Integers -/

theorem roundEven_intCast (k : ℤ) : roundEven k = k := by
  rw [roundEven, Int.floor_intCast, sub_self, if_pos (by norm_num)]

/-- Rounding does not go below an integer that the number is not below. -/
theorem le_roundEven {k : ℤ} {q : ℚ} (h : (k : ℚ) ≤ q) : k ≤ roundEven q := by
  have hfloor : k ≤ ⌊q⌋ := Int.le_floor.2 h
  unfold roundEven
  split_ifs <;> omega

theorem spacing_pos (q : ℚ) : 0 < spacing q := zpow_pos (by norm_num) _

/-- A number that is a multiple of the distance is of the format. -/
theorem roundMagnitude_of_multiple {q : ℚ} {k : ℤ} (h : q = k * spacing q) : roundMagnitude q = q := by
  have hdiv : q / spacing q = k := by
    rw [div_eq_iff (spacing_pos q).ne']
    exact h
  rw [roundMagnitude, hdiv, roundEven_intCast, ← h]

/-- Every number of at most 53 binary digits is of the format. -/
theorem roundMagnitude_natCast {n : Nat} (h : n < 2 ^ 53) : roundMagnitude n = n := by
  have hlog : Nat.log 2 n ≤ 52 := Nat.lt_succ_iff.1 (Nat.log_lt_of_lt_pow' (by decide) h)
  obtain ⟨d, hd⟩ := Nat.exists_eq_add_of_le hlog
  have hexp : max (Int.log 2 (n : ℚ) - 52) (-1074) = -(d : ℤ) := by
    rw [Int.log_natCast]
    omega
  refine roundMagnitude_of_multiple (k := n * 2 ^ d) ?_
  rw [spacing, hexp, zpow_neg, zpow_natCast]
  push_cast
  field_simp

example : roundMagnitude (2 ^ 53 + 1) = 2 ^ 53 := by decide +kernel

/-- Rounding does not go below a power of two that is a multiple of the distance and that the number is not below. -/
theorem zpow_le_roundMagnitude {q : ℚ} {t : ℤ} (ht : max (Int.log 2 q - 52) (-1074) ≤ t) (h : 2 ^ t ≤ q) :
    2 ^ t ≤ roundMagnitude q := by
  obtain ⟨d, hd⟩ := Int.eq_ofNat_of_zero_le (Int.sub_nonneg_of_le ht)
  have hsplit : (2 : ℚ) ^ t = ((2 ^ d : ℤ) : ℚ) * spacing q := by
    rw [spacing, Int.cast_pow, Int.cast_ofNat, ← zpow_natCast, ← zpow_add₀ (by norm_num)]
    congr 1
    omega
  have hle : (2 ^ d : ℤ) ≤ roundEven (q / spacing q) := by
    refine le_roundEven ?_
    rw [le_div_iff₀ (spacing_pos q), ← hsplit]
    exact h
  rw [hsplit, roundMagnitude]
  exact mul_le_mul_of_nonneg_right (Int.cast_le.2 hle) (spacing_pos q).le

/-- Rounding does not go below a power of two that the number is not below. -/
theorem le_roundMagnitude {q : ℚ} {e : Nat} (h : 2 ^ e ≤ q) : 2 ^ e ≤ roundMagnitude q := by
  have hpos : 0 < q := lt_of_lt_of_le (by positivity) h
  have hlog : (e : ℤ) ≤ Int.log 2 q := (Int.zpow_le_iff_le_log (by decide) hpos).1 (by exact_mod_cast h)
  rcases le_total (Int.log 2 q - 52) e with hfine | hcoarse
  · rw [← zpow_natCast] at h ⊢
    exact zpow_le_roundMagnitude (by omega) h
  · -- the distance is a power of two above `e`, so the leading power of two takes its place
    have hself : (2 : ℚ) ^ Int.log 2 q ≤ q := by exact_mod_cast Int.zpow_log_le_self (b := 2) (by decide) hpos
    calc (2 : ℚ) ^ e = 2 ^ (e : ℤ) := (zpow_natCast _ _).symm
      _ ≤ 2 ^ Int.log 2 q := zpow_le_zpow_right₀ (by norm_num) hlog
      _ ≤ roundMagnitude q := zpow_le_roundMagnitude (by omega) hself

namespace Double

/-- Every natural number of at most 53 binary digits is of the format. -/
theorem ofRat_natCast {n : Nat} (h : n < 2 ^ 53) : ofRat n = .finite n := by
  have hnonneg : (0 : ℚ) ≤ n := Nat.cast_nonneg n
  have hsmall : ¬(2 : ℚ) ^ 1024 ≤ n := by
    rw [not_le]
    calc (n : ℚ) < 2 ^ 53 := by exact_mod_cast h
      _ ≤ 2 ^ 1024 := pow_le_pow_right₀ (by norm_num) (by decide)
  rw [ofRat, abs_of_nonneg hnonneg, roundMagnitude_natCast h, if_neg hsmall, if_neg (not_lt.2 hnonneg)]

/-- The sum of two natural numbers is of the format when it has at most 53 binary digits. -/
theorem add_natCast {m n : Nat} (h : m + n < 2 ^ 53) : add (.finite m) (.finite n) = .finite ((m + n : Nat) : ℚ) := by
  rw [add, ← Nat.cast_add]
  exact ofRat_natCast h

/-- A number that is not below a power of two does not get below it by rounding. -/
theorem le_ofRat {q : ℚ} {e : Nat} (h : 2 ^ e ≤ q) : le (.finite (2 ^ e)) (ofRat q) = true := by
  have hpos : 0 < q := lt_of_lt_of_le (by positivity) h
  rw [ofRat, abs_of_pos hpos, if_neg (not_lt.2 hpos.le)]
  split
  · rw [decide_eq_false (not_lt.2 hpos.le)]
    rfl
  · exact decide_eq_true (le_roundMagnitude h)

end Double

end Lib
