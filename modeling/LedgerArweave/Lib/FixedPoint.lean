import Mathlib.Data.List.Basic
import Mathlib.Data.List.TakeWhile

/-!
# Numerals with a decimal point

A whole number of smallest units, given as ASCII digits, written with a point before its last `decimals` digits
(`fixedPoint`), and the zeros at the end of the fraction left out (`trimmed`). What is written shows the number: two numerals
written alike are the same up to zeros at the front (`trimmed_fixedPoint_inj`).
-/

namespace Lib

/-- An ASCII digit. -/
def IsDigit (b : UInt8) : Prop := 48 ≤ b ∧ b ≤ 57

instance (b : UInt8) : Decidable (IsDigit b) := inferInstanceAs (Decidable (_ ∧ _))

/-- The test that a byte string is a numeral. -/
theorem isDigit_of_all {s : List UInt8} (h : (s.all fun b => decide (IsDigit b)) = true) : ∀ b ∈ s, IsDigit b := by
  simpa only [List.all_eq_true, decide_eq_true_eq] using h

/-- A numeral without zeros at the front. -/
def numeral (s : List UInt8) : List UInt8 := s.dropWhile (· = 48)

/-- A numeral with zeros at the front again, so that a digit stands before the point. -/
def padded (decimals : Nat) (s : List UInt8) : List UInt8 :=
  List.replicate (decimals + 1 - (numeral s).length) 48 ++ numeral s

/-- The digits before the point. -/
def whole (decimals : Nat) (s : List UInt8) : List UInt8 := (padded decimals s).take ((padded decimals s).length - decimals)

/-- The digits behind the point. -/
def fraction (decimals : Nat) (s : List UInt8) : List UInt8 := (padded decimals s).drop ((padded decimals s).length - decimals)

/-- A numeral of smallest units written with a point. -/
def fixedPoint (decimals : Nat) (s : List UInt8) : List UInt8 := whole decimals s ++ 46 :: fraction decimals s

/-- The digits of a fraction without zeros at the end, but with `kept` digits at least. -/
def trimmedFraction (kept : Nat) (digits : List UInt8) : List UInt8 :=
  digits.take (max kept (digits.reverse.dropWhile (· = 48)).length)

/-- A text with a point, without zeros at the end. -/
def trimmed (kept : Nat) (text : List UInt8) : List UInt8 :=
  text.takeWhile (· ≠ 46) ++ 46 :: trimmedFraction kept ((text.dropWhile (· ≠ 46)).drop 1)

theorem length_fraction (decimals : Nat) (s : List UInt8) : (fraction decimals s).length = decimals := by
  have hlen : decimals ≤ (padded decimals s).length := by
    rw [padded, List.length_append, List.length_replicate]
    omega
  rw [fraction, List.length_drop]
  omega

/-- One character more than there are digits, and digits enough for the fraction and one before the point. -/
theorem length_fixedPoint (decimals : Nat) (s : List UInt8) :
    (fixedPoint decimals s).length = max (numeral s).length (decimals + 1) + 1 := by
  have hlen : (padded decimals s).length = max (numeral s).length (decimals + 1) := by
    rw [padded, List.length_append, List.length_replicate]
    omega
  rw [fixedPoint, List.length_append, List.length_cons, length_fraction, whole, List.length_take, hlen]
  omega

theorem numeral_numeral (s : List UInt8) : numeral (numeral s) = numeral s := by
  unfold numeral
  rw [List.dropWhile_eq_self_iff]
  intro h
  simpa using List.dropWhile_get_zero_not _ s h

/-- A padded numeral shows the numeral. -/
theorem numeral_padded (decimals : Nat) (s : List UInt8) : numeral (padded decimals s) = numeral s := by
  have hzeros : ∀ b ∈ List.replicate (decimals + 1 - (numeral s).length) (48 : UInt8), decide (b = 48) = true :=
    fun b hb => decide_eq_true (List.mem_replicate.1 hb).2
  rw [padded, numeral, List.dropWhile_append_of_pos hzeros]
  exact numeral_numeral s

/-- A list of digits ends in the zeros that its end is made of. -/
theorem split_zeros (digits : List UInt8) :
    ∃ front back, digits = front ++ back ∧ (digits.reverse.dropWhile (· = 48)).length = front.length ∧ ∀ b ∈ back, b = 48 := by
  refine ⟨(digits.reverse.dropWhile (· = 48)).reverse, (digits.reverse.takeWhile (· = 48)).reverse, ?_,
    List.length_reverse.symm, ?_⟩
  · rw [← List.reverse_append, List.takeWhile_append_dropWhile, List.reverse_reverse]
  · intro b hb
    have hzero := List.mem_takeWhile_imp (List.mem_reverse.1 hb)
    exact of_decide_eq_true hzero

/-- What is left out at the end of a fraction are zeros. -/
theorem trimmedFraction_append (kept : Nat) (digits : List UInt8) :
    trimmedFraction kept digits ++ List.replicate (digits.length - (trimmedFraction kept digits).length) 48 = digits := by
  obtain ⟨front, back, hcut, hlen, hback⟩ := split_zeros digits
  have hrest : ∀ b ∈ digits.drop (max kept front.length), b = 48 := by
    intro b hb
    rw [← Nat.add_sub_cancel' (Nat.le_max_right kept front.length), ← List.drop_drop, hcut, List.drop_left] at hb
    exact hback b (List.mem_of_mem_drop hb)
  have hcount : (digits.drop (max kept front.length)).length = digits.length - (trimmedFraction kept digits).length := by
    rw [trimmedFraction, hlen, List.length_drop, List.length_take]
    omega
  rw [← hcount, ← List.eq_replicate_iff.2 ⟨rfl, hrest⟩, trimmedFraction, hlen, List.take_append_drop]

theorem trimmedFraction_inj {kept : Nat} {a b : List UInt8} (hlen : a.length = b.length)
    (h : trimmedFraction kept a = trimmedFraction kept b) : a = b := by
  rw [← trimmedFraction_append kept a, ← trimmedFraction_append kept b, h, hlen]

theorem fixedPoint_inj {decimals : Nat} {s t : List UInt8} (hw : whole decimals s = whole decimals t)
    (hf : fraction decimals s = fraction decimals t) : numeral s = numeral t := by
  have hpad : padded decimals s = padded decimals t := by
    have h1 := List.take_append_drop ((padded decimals s).length - decimals) (padded decimals s)
    have h2 := List.take_append_drop ((padded decimals t).length - decimals) (padded decimals t)
    rw [← h1, ← h2]
    exact congrArg₂ (· ++ ·) hw hf
  rw [← numeral_padded decimals s, hpad, numeral_padded]

theorem point_not_mem_padded {decimals : Nat} {s : List UInt8} (hs : ∀ b ∈ s, IsDigit b) : 46 ∉ padded decimals s := by
  intro h
  rcases List.mem_append.1 h with hz | hn
  · exact absurd (List.mem_replicate.1 hz).2 (by decide)
  · exact absurd (hs 46 ((List.dropWhile_sublist _).subset hn)) (by decide)

/-- The parts of a text with a point. -/
theorem trimmed_append {pre digits : List UInt8} (hpre : 46 ∉ pre) (kept : Nat) :
    trimmed kept (pre ++ 46 :: digits) = pre ++ 46 :: trimmedFraction kept digits := by
  have hall : ∀ b ∈ pre, decide (b ≠ 46) = true := fun b hb => decide_eq_true fun h => hpre (h ▸ hb)
  rw [trimmed, List.takeWhile_append_of_pos hall, List.dropWhile_append_of_pos hall, List.takeWhile_cons_of_neg (by decide),
    List.dropWhile_cons_of_neg (by decide), List.append_nil, List.drop_one, List.tail_cons]

/-- Two numerals of digits that are written alike, behind the same text, are the same up to zeros at the front. -/
theorem trimmed_fixedPoint_inj {pre s t : List UInt8} {kept decimals : Nat} (hpre : 46 ∉ pre) (hs : ∀ b ∈ s, IsDigit b)
    (ht : ∀ b ∈ t, IsDigit b)
    (h : trimmed kept (pre ++ fixedPoint decimals s) = trimmed kept (pre ++ fixedPoint decimals t)) :
    numeral s = numeral t := by
  have hwhole : ∀ {q : List UInt8}, (∀ b ∈ q, IsDigit b) → 46 ∉ pre ++ whole decimals q := by
    intro q hq hm
    rcases List.mem_append.1 hm with hm | hm
    · exact hpre hm
    · exact point_not_mem_padded hq (List.mem_of_mem_take hm)
  have hfraction : 46 ∉ trimmedFraction kept (fraction decimals s) := fun hm =>
    point_not_mem_padded hs (List.mem_of_mem_drop (List.mem_of_mem_take hm))
  rw [fixedPoint, fixedPoint, ← List.append_assoc, ← List.append_assoc, trimmed_append (hwhole hs),
    trimmed_append (hwhole ht)] at h
  obtain ⟨hw, -, hf⟩ := (List.append_cons_inj_of_notMem (hwhole hs) hfraction).1 h
  have hlen : (fraction decimals s).length = (fraction decimals t).length := by rw [length_fraction, length_fraction]
  exact fixedPoint_inj (List.append_cancel_left hw) (trimmedFraction_inj hlen hf)

end Lib
