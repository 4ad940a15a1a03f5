import Mathlib.Analysis.SpecialFunctions.Pow.Real
import Mathlib.Data.Nat.Nth
import Mathlib.Data.Nat.Prime.Basic

/-!
# Nothing-up-my-sleeve numbers

The first bits of the fractional parts of the roots of small primes, as hash functions take their constants from them, and how to
check a table of such numbers: a power comparison in whole numbers for each root (`rootFraction_eq`), and one walk through the
numbers below a bound for the primes (`nth_eq_of_getElem?`).
-/

namespace Lib

/-! ## Roots -/

/-- The fractional part of the `k`-th root of a number, in units of one part in `m`: its first bits, when `m` is a power of two. -/
noncomputable def rootFraction (m k p : ℕ) : ℕ := ⌊Int.fract ((p : ℝ) ^ (1 / (k : ℝ))) * m⌋₊

/-- A whole number that bounds `m` times the root from below, while the next one does not, has that fractional part. -/
theorem rootFraction_eq {m k p c : ℕ} (hm : 0 < m) (hk : k ≠ 0) (hle : c ^ k ≤ p * m ^ k) (hlt : p * m ^ k < (c + 1) ^ k) :
    rootFraction m k p = c % m := by
  have hmR : (0 : ℝ) < m := Nat.cast_pos.2 hm
  have hkR : (k : ℝ) ≠ 0 := Nat.cast_ne_zero.2 hk
  have hroot : ((p : ℝ) ^ (1 / (k : ℝ))) ^ k = p := by
    rw [← Real.rpow_natCast, ← Real.rpow_mul (Nat.cast_nonneg p), one_div_mul_cancel hkR, Real.rpow_one]
  have hpos : 0 ≤ (p : ℝ) ^ (1 / (k : ℝ)) := Real.rpow_nonneg (Nat.cast_nonneg p) _
  rw [rootFraction]
  generalize (p : ℝ) ^ (1 / (k : ℝ)) = x at hroot hpos ⊢
  -- `m` times the root lies between `c` and `c + 1`
  have hshift : (x * m) ^ k = ((p * m ^ k : ℕ) : ℝ) := by
    rw [mul_pow, hroot]
    push_cast
    rfl
  have hlow : (c : ℝ) ≤ x * m := by
    refine (pow_le_pow_iff_left₀ (Nat.cast_nonneg c) (by positivity) hk).1 ?_
    rw [hshift]
    exact_mod_cast hle
  have hhigh : x * m < c + 1 := by
    refine (pow_lt_pow_iff_left₀ (by positivity) (by positivity) hk).1 ?_
    rw [hshift]
    exact_mod_cast hlt
  -- so its whole part is that of `c / m`
  obtain ⟨q, hq⟩ : ∃ q, q = c / m := ⟨_, rfl⟩
  have hsplit : (c : ℝ) = q * m + ((c % m : ℕ) : ℝ) := by
    have := Nat.div_add_mod' c m
    rw [← hq] at this
    exact_mod_cast this.symm
  have hrest : ((c % m : ℕ) : ℝ) + 1 ≤ m := by exact_mod_cast Nat.mod_lt c hm
  have hfloor : ⌊x⌋ = (q : ℤ) := by
    rw [Int.floor_eq_iff]
    constructor
    · refine le_of_mul_le_mul_right ?_ hmR
      push_cast
      linarith [Nat.cast_nonneg (α := ℝ) (c % m)]
    · refine lt_of_mul_lt_mul_right ?_ hmR.le
      push_cast
      linarith
  have hfract : Int.fract x * m = x * m - q * m := by
    rw [Int.fract, hfloor, sub_mul]
    norm_cast
  rw [Nat.floor_eq_iff (mul_nonneg (Int.fract_nonneg x) hmR.le), hfract]
  constructor <;> linarith

/-! ## Primes -/

section

variable (p : ℕ → Prop) [DecidablePred p]

theorem count_eq_length_filter (n : ℕ) : Nat.count p n = ((List.range n).filter p).length := by
  induction n with
  | zero => rfl
  | succ n ih =>
    rw [Nat.count_succ, ih, List.range_succ, List.filter_append, List.length_append]
    by_cases hn : p n <;> simp [hn]

/-- The numbers with a property, in order: those below a bound are the first ones. -/
theorem nth_eq_of_getElem? {n t q : ℕ} (h : ((List.range n).filter p)[t]? = some q) : Nat.nth p t = q := by
  induction n with
  | zero => cases h
  | succ n ih =>
    rw [List.range_succ, List.filter_append] at h
    by_cases hbefore : t < ((List.range n).filter p).length
    · rw [List.getElem?_append_left hbefore] at h
      exact ih h
    · rw [List.getElem?_append_right (Nat.le_of_not_lt hbefore)] at h
      by_cases hn : p n
      · rw [List.filter_singleton, decide_eq_true hn, cond_true, List.getElem?_singleton] at h
        split at h
        · have hlast : t = Nat.count p n := by
            rw [count_eq_length_filter]
            omega
          rw [hlast, Nat.nth_count hn]
          exact Option.some.inj h
        · cases h
      · rw [List.filter_singleton, decide_eq_false hn] at h
        cases h

end

/-- A number from two on that no smaller one from two on divides. -/
def isPrime (n : ℕ) : Bool := 2 ≤ n ∧ ((List.range n).drop 2).all fun m => n % m ≠ 0

theorem isPrime_iff {n : ℕ} : isPrime n = true ↔ n.Prime := by
  have hmem : ∀ m, m ∈ (List.range n).drop 2 ↔ 2 ≤ m ∧ m < n := by
    intro m
    rw [List.range_eq_range', List.drop_range', List.mem_range'_1]
    omega
  rw [isPrime, decide_eq_true_iff, Nat.prime_def_lt', List.all_eq_true]
  refine and_congr_right fun _ => forall_congr' fun m => ?_
  rw [hmem, decide_eq_true_iff, ne_eq, Nat.dvd_iff_mod_eq_zero, and_imp]

/-- The primes below a bound, in order. -/
def primesBelow (n : ℕ) : List ℕ := (List.range n).filter isPrime

/-- The primes below a bound are the first ones. -/
theorem nth_prime_eq {n t q : ℕ} (h : (primesBelow n)[t]? = some q) : Nat.nth Nat.Prime t = q := by
  have hsame : primesBelow n = (List.range n).filter fun m => Nat.Prime m :=
    List.filter_congr fun m _ => by rw [← Bool.decide_coe (isPrime m), decide_eq_decide, isPrime_iff]
  rw [hsame] at h
  exact nth_eq_of_getElem? Nat.Prime h

/-! ## Tables -/

/-- The check of a table, whose whole parts are all below 32: it holds the fractional parts of the `k`-th roots of the primes
below `n`, from index `o` on. -/
def isRootTable (m k n o : ℕ) (table : List ℕ) : Bool :=
  (((primesBelow n).drop o).zip table).length = table.length ∧ (((primesBelow n).drop o).zip table).all fun (q, w) =>
    w < m ∧ (List.range 32).any fun a => (a * m + w) ^ k ≤ q * m ^ k ∧ q * m ^ k < (a * m + w + 1) ^ k

/-- What a checked table holds. -/
theorem getElem?_of_isRootTable {m k n o : ℕ} {table : List ℕ} (hk : k ≠ 0) (h : isRootTable m k n o table = true) {t w : ℕ}
    (hw : table[t]? = some w) : w = rootFraction m k (Nat.nth Nat.Prime (o + t)) := by
  obtain ⟨hlen, hall⟩ := of_decide_eq_true h
  obtain ⟨htable, rfl⟩ := List.getElem?_eq_some_iff.1 hw
  have hzip : t < (((primesBelow n).drop o).zip table).length := hlen ▸ htable
  have hprime : t < ((primesBelow n).drop o).length := by
    rw [List.length_zip] at hzip
    omega
  have hcheck := of_decide_eq_true (List.all_eq_true.1 hall _ (List.getElem_mem hzip))
  simp only [List.getElem_zip] at hcheck
  obtain ⟨hlt, hany⟩ := hcheck
  obtain ⟨a, -, ha⟩ := List.any_eq_true.1 hany
  obtain ⟨hlow, hhigh⟩ := of_decide_eq_true ha
  have hnth : Nat.nth Nat.Prime (o + t) = ((primesBelow n).drop o)[t] := by
    refine nth_prime_eq (n := n) ?_
    rw [← List.getElem?_drop, List.getElem?_eq_getElem hprime]
  rw [hnth, rootFraction_eq (Nat.zero_lt_of_lt hlt) hk hlow hhigh, Nat.mul_add_mod_self_right, Nat.mod_eq_of_lt hlt]

end Lib
