import LedgerArweave.Lib.Double
import Mathlib.Data.List.TakeWhile

/-!
# Numbers and strings of ECMAScript

Strings as lists of UTF-16 code units, and the two conversions between them and numbers that a program meets without asking: the
number of a string (`StringToNumber`), and the text of a natural number in a template. The first one takes far more than decimal
digits: white space on either side, the empty string, signs, fractions, exponents, and numerals to the bases 2, 8 and 16.
-/

namespace Lib

/-- A string: a list of code units. -/
abbrev EcmaString : Type := List UInt16

/-- The code unit of a character of the basic plane. -/
def unit (c : Char) : UInt16 := UInt16.ofNat c.toNat

/-- The string of characters of the basic plane. -/
def ecma (s : String) : EcmaString := s.toList.map unit

/-- `ToString` of a natural number below 10^21. -/
def decimalString (n : Nat) : EcmaString := (Nat.toDigits 10 n).map unit

/-! ## The number of a string -/

/-- `WhiteSpace` and `LineTerminator`. -/
def whiteSpace : EcmaString :=
  [9, 10, 11, 12, 13, 32, 0xA0, 0x1680, 0x2000, 0x2001, 0x2002, 0x2003, 0x2004, 0x2005, 0x2006, 0x2007, 0x2008, 0x2009, 0x200A,
    0x2028, 0x2029, 0x202F, 0x205F, 0x3000, 0xFEFF]

/-- Whether a code unit is one of them. -/
def isWhiteSpace (c : UInt16) : Bool := whiteSpace.contains c

/-- A string without the white space on either side. -/
def trimString (s : EcmaString) : EcmaString := ((s.dropWhile isWhiteSpace).reverse.dropWhile isWhiteSpace).reverse

/-- The value of a digit, of a base up to 16. -/
def digitValue (c : UInt16) : Option Nat :=
  if unit '0' ≤ c ∧ c ≤ unit '9' then some (c - unit '0').toNat
  else if unit 'a' ≤ c ∧ c ≤ unit 'f' then some ((c - unit 'a').toNat + 10)
  else if unit 'A' ≤ c ∧ c ≤ unit 'F' then some ((c - unit 'A').toNat + 10)
  else none

/-- Whether a code unit is a digit of a base. -/
def isDigitOf (base : Nat) (c : UInt16) : Bool := (digitValue c).any (· < base)

/-- The number that digits of a base denote. -/
def digitsValue (base : Nat) (ds : EcmaString) : Nat := ds.foldl (fun n c => base * n + (digitValue c).getD 0) 0

/-- Some digits of a base, and nothing else. -/
def IsDigits (base : Nat) (ds : EcmaString) : Prop := ds ≠ [] ∧ ds.all (isDigitOf base) = true

instance (base : Nat) (ds : EcmaString) : Decidable (IsDigits base ds) := inferInstanceAs (Decidable (_ ∧ _))

/-- `NonDecimalIntegerLiteral`: the base its first two characters give, and the characters after them. -/
def basePrefix : EcmaString → Option (Nat × EcmaString)
  | zero :: letter :: ds =>
    if zero ≠ unit '0' then none
    else if letter = unit 'x' ∨ letter = unit 'X' then some (16, ds)
    else if letter = unit 'o' ∨ letter = unit 'O' then some (8, ds)
    else if letter = unit 'b' ∨ letter = unit 'B' then some (2, ds)
    else none
  | _ => none

/-- `SignedInteger`. -/
def signedInteger (s : EcmaString) : Option Int :=
  let negative := s.head? = some (unit '-')
  let ds := if negative ∨ s.head? = some (unit '+') then s.tail else s
  if IsDigits 10 ds then some (if negative then -digitsValue 10 ds else digitsValue 10 ds) else none

/-- `ExponentPart`, where it stands: at the end of a literal. -/
def exponentPart : EcmaString → Option Int
  | [] => some 0
  | e :: s => if e = unit 'e' ∨ e = unit 'E' then signedInteger s else none

/-- `StrUnsignedDecimalLiteral`, with the sign in front of it. -/
def decimalLiteral (negative : Bool) (s : EcmaString) : Double :=
  if s = ecma "Infinity" then .inf negative
  else
    let whole := s.takeWhile (isDigitOf 10)
    let rest := s.dropWhile (isDigitOf 10)
    let pointed := rest.head? = some (unit '.')
    let fraction := if pointed then rest.tail.takeWhile (isDigitOf 10) else []
    let rest := if pointed then rest.tail.dropWhile (isDigitOf 10) else rest
    match exponentPart rest with
    | none => .nan
    | some e =>
      if whole ++ fraction = [] then .nan
      else
        let m : ℚ := digitsValue 10 (whole ++ fraction) * 10 ^ (e - fraction.length)
        Double.ofRat (if negative then -m else m)

/-- `StringToNumber`. -/
def stringToNumber (s : EcmaString) : Double :=
  let s := trimString s
  if s = [] then .finite 0
  else match basePrefix s with
    | some (base, ds) => if IsDigits base ds then Double.ofRat (digitsValue base ds) else .nan
    | none =>
      if s.head? = some (unit '-') then decimalLiteral true s.tail
      else if s.head? = some (unit '+') then decimalLiteral false s.tail
      else decimalLiteral false s

/-! ## The number as 32 bits -/

/-- `ToUint32`: the fraction goes, and then all but the last 32 bits. -/
def toUint32 : Double → Nat
  | .finite q => ((if q < 0 then ⌈q⌉ else ⌊q⌋) % 2 ^ 32).toNat
  | _ => 0

/-- A number of 32 bits is itself. -/
theorem toUint32_natCast {n : Nat} (h : n < 2 ^ 32) : toUint32 (.finite n) = n := by
  rw [toUint32, if_neg (not_lt.2 (Nat.cast_nonneg n)), Int.floor_natCast]
  omega

/-- Every value becomes a number of 32 bits. -/
theorem toUint32_lt (x : Double) : toUint32 x < 2 ^ 32 := by
  cases x with
  | finite q =>
    rw [toUint32]
    omega
  | nan => exact Nat.two_pow_pos 32
  | inf negative => exact Nat.two_pow_pos 32

/-! ## Strings of decimal digits -/

/-- A decimal digit is none of the other code units that a numeral can start with or contain. -/
theorem ne_of_isDigitOf_ten {c d : UInt16} (hc : isDigitOf 10 c = true) (hd : isDigitOf 10 d = false) : c ≠ d := by
  rintro rfl
  rw [hc] at hd
  cases hd

/-- No digit is white space. -/
theorem isWhiteSpace_of_isDigitOf_ten {c : UInt16} (h : isDigitOf 10 c = true) : isWhiteSpace c = false := by
  have hnone : whiteSpace.all (fun w => !isDigitOf 10 w) = true := by decide
  rw [isWhiteSpace, List.contains_eq_mem, decide_eq_false_iff_not]
  intro hc
  have hnot := List.all_eq_true.1 hnone c hc
  rw [h] at hnot
  cases hnot

variable {ds : EcmaString}

/-- Every character of some digits is one. -/
theorem all_of_isDigits (h : IsDigits 10 ds) : ∀ c ∈ ds, isDigitOf 10 c = true := List.all_eq_true.1 h.2

/-- There is nothing to trim of digits. -/
theorem trimString_of_isDigits (h : IsDigits 10 ds) : trimString ds = ds := by
  have front : ∀ l : EcmaString, (∀ c ∈ l, isDigitOf 10 c = true) → l.dropWhile isWhiteSpace = l := by
    intro l hl
    cases l with
    | nil => rfl
    | cons c l => rw [List.dropWhile_cons_of_neg (by rw [isWhiteSpace_of_isDigitOf_ten (hl c (List.mem_cons_self ..))]; decide)]
  have hall := all_of_isDigits h
  rw [trimString, front ds hall, front ds.reverse (fun c hc => hall c (List.mem_reverse.1 hc)), List.reverse_reverse]

/-- Decimal digits have no base in front. -/
theorem basePrefix_of_isDigits (h : IsDigits 10 ds) : basePrefix ds = none := by
  have hall := all_of_isDigits h
  match ds, hall with
  | [], _ => rfl
  | [_], _ => rfl
  | zero :: letter :: rest, hall =>
    have hletter : ∀ d, isDigitOf 10 d = false → letter ≠ d := fun d => ne_of_isDigitOf_ten (hall letter (by simp))
    rw [basePrefix]
    simp only [hletter (unit 'x') (by decide), hletter (unit 'X') (by decide), hletter (unit 'o') (by decide),
      hletter (unit 'O') (by decide), hletter (unit 'b') (by decide), hletter (unit 'B') (by decide), or_self, if_false, ite_self]

/-- Decimal digits alone are read as what they denote. -/
theorem stringToNumber_of_isDigits (h : IsDigits 10 ds) : stringToNumber ds = Double.ofRat (digitsValue 10 ds) := by
  have hall := all_of_isDigits h
  have hhead : ∀ d, isDigitOf 10 d = false → ds.head? ≠ some d := by
    intro d hd hsome
    exact ne_of_isDigitOf_ten (hall d (List.mem_of_mem_head? hsome)) hd rfl
  have hinf : ds ≠ ecma "Infinity" := by
    intro heq
    exact hhead (unit 'I') (by decide) (by rw [heq]; rfl)
  have htake : ds.takeWhile (isDigitOf 10) = ds := List.takeWhile_eq_self_iff.2 hall
  have hdrop : ds.dropWhile (isDigitOf 10) = [] := List.dropWhile_eq_nil_iff.2 hall
  have hliteral : decimalLiteral false ds = Double.ofRat (digitsValue 10 ds) := by
    rw [decimalLiteral, if_neg hinf, htake, hdrop]
    simp [exponentPart, h.1]
  rw [stringToNumber, trimString_of_isDigits h, if_neg h.1, basePrefix_of_isDigits h]
  simp only
  rw [if_neg (hhead _ (by decide)), if_neg (hhead _ (by decide)), hliteral]

example : [ecma "0012", ecma " 1.2e1 ", ecma "0xC"].map stringToNumber = List.replicate 3 (.finite 12) := by decide +kernel

/-! ## The text of a number -/

/-- The value of the character of a digit. -/
theorem digitValue_digitChar {d : Nat} (h : d < 10) : digitValue (unit d.digitChar) = some d :=
  (by decide : ∀ d < 10, digitValue (unit (Nat.digitChar d)) = some d) d h

/-- The last digit of a number comes off the end of its text. -/
theorem decimalString_eq (n : Nat) :
    decimalString n = (if n < 10 then [] else decimalString (n / 10)) ++ [unit (n % 10).digitChar] := by
  rw [decimalString, Nat.toDigits_eq_if (by decide)]
  split
  · rename_i hn
    rw [List.nil_append, Nat.mod_eq_of_lt hn]
    rfl
  · rw [List.map_append]
    rfl

/-- A number is printed in digits. -/
theorem isDigits_decimalString (n : Nat) : IsDigits 10 (decimalString n) := by
  refine ⟨?_, ?_⟩
  · rw [decimalString_eq]
    exact List.append_ne_nil_of_right_ne_nil _ (List.cons_ne_nil _ _)
  · induction n using Nat.strongRecOn with
    | ind n ih =>
      have hlast : isDigitOf 10 (unit (n % 10).digitChar) = true := by
        have hlt := Nat.mod_lt n (show 0 < 10 by decide)
        rw [isDigitOf, digitValue_digitChar hlt]
        exact decide_eq_true hlt
      rw [decimalString_eq, List.all_append, Bool.and_eq_true]
      refine ⟨?_, by rw [List.all_cons, hlast]; rfl⟩
      split
      · rfl
      · exact ih (n / 10) (by omega)

/-- The text of a number denotes it. -/
theorem digitsValue_decimalString (n : Nat) : digitsValue 10 (decimalString n) = n := by
  induction n using Nat.strongRecOn with
  | ind n ih =>
    have hlast : ∀ m, 10 * m + (digitValue (unit (n % 10).digitChar)).getD 0 = 10 * m + n % 10 := by
      intro m
      rw [digitValue_digitChar (Nat.mod_lt n (by decide))]
      rfl
    rw [decimalString_eq, digitsValue, List.foldl_append, List.foldl_cons, List.foldl_nil, hlast]
    split
    · rename_i hn
      rw [List.foldl_nil, Nat.mod_eq_of_lt hn, Nat.mul_zero, Nat.zero_add]
    · have hdiv : digitsValue 10 (decimalString (n / 10)) = n / 10 := ih (n / 10) (by omega)
      rw [digitsValue] at hdiv
      rw [hdiv]
      exact Nat.div_add_mod n 10

end Lib
