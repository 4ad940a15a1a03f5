import LedgerArweave.Lib.Bytes
import LedgerArweave.Lib.EcmaNumber
import LedgerArweave.Lib.Program

/-!
# Derivation paths

`serializePathv1`, `printBIP44Item` and `printBIP44Path` of `common.js`, over the two buffer methods they use. A path is a string:
`serializePathv1` turns anything else away first.
-/

namespace LedgerArweave

open Lib

def slash : UInt16 := unit '/'
def apostrophe : UInt16 := 39

/-- What the functions throw: an error with a message, or the `RangeError` of a buffer method. -/
inductive PathError where
  | error (message : EcmaString)
  | rangeError
  deriving DecidableEq

/-! ## Buffers -/

/-- The bytes of a 32-bit number, least significant byte first. -/
def le32 (n : Nat) : List UInt8 := [UInt8.ofNat n, UInt8.ofNat (n >>> 8), UInt8.ofNat (n >>> 16), UInt8.ofNat (n >>> 24)]

/-- `buf.writeUInt32LE`: a number out of the range of 32 bits is turned away, a fraction is not. -/
def writeUInt32LE (buf : List UInt8) (value : Double) (offset : Nat) : Except PathError (List UInt8) :=
  if Double.lt (.finite 0xffffffff) value || Double.lt value (.finite 0) then .error .rangeError
  else if buf.length < offset + 4 then .error .rangeError
  else .ok (patch buf offset (le32 (toUint32 value)))

/-- `buf.readUInt32LE`. -/
def readUInt32LE (buf : List UInt8) (offset : Nat) : Except PathError Nat :=
  match slice buf offset 4 with
  | [first, second, third, last] =>
    .ok (first.toNat + second.toNat * 2 ^ 8 + third.toNat * 2 ^ 16 + last.toNat * 2 ^ 24)
  | _ => .error .rangeError

/-! ## Printing -/

/-- `printBIP44Item`. -/
def printBIP44Item (v : Nat) : EcmaString :=
  let hardened := v ≥ 0x8000000
  decimalString (v &&& 0x7fffffff) ++ (if hardened then [apostrophe] else [])

/-- `printBIP44Path`: the template has a slash between any two of its parts. -/
def printBIP44Path (pathBytes : List UInt8) : Except PathError EcmaString :=
  if pathBytes.length ≠ 20 then .error (.error (ecma "Invalid bip44 path"))
  else do
    let pathValues ← [0, 1, 2, 3, 4].mapM fun i => readUInt32LE pathBytes (4 * i)
    return [slash].intercalate (ecma "m" :: pathValues.map printBIP44Item)

/-! ## Serialising -/

/-- `HARDENED`. -/
def hardened : Double := .finite 0x80000000

/-- The body of the loop of `serializePathv1`, up to the write. -/
def childValue (child : EcmaString) : Except PathError Double :=
  let endsWith := child.getLast? = some apostrophe
  let value := if endsWith then Double.add (.finite 0) hardened else .finite 0
  let child := if endsWith then child.dropLast else child
  let childNumber := stringToNumber child
  if childNumber = .nan then
    .error (.error (ecma "Invalid path : " ++ child ++ ecma " is not a number. (e.g \"m/44'/1'/5'/0/3\")"))
  else if Double.le hardened childNumber then
    .error (.error (ecma "Incorrect child value (bigger or equal to 0x80000000)"))
  else .ok (Double.add value childNumber)

/-- The loop of `serializePathv1`, over the rest of the array from index `i` on. -/
def writeChildren : (pathArray : List EcmaString) → (i : Nat) → (buf : List UInt8) → Except PathError (List UInt8)
  | [], _, buf => .ok buf
  | child :: pathArray, i, buf => do
    let value ← childValue child
    let buf ← writeUInt32LE buf value (4 * (i - 1))
    writeChildren pathArray (i + 1) buf

/-- `serializePathv1`. -/
def serializePathv1 (path : EcmaString) : Except PathError (List UInt8) :=
  if path.head? ≠ some (unit 'm') then
    .error (.error (ecma "Path should start with \"m\" (e.g \"m/44'/472'/5'/0/3\")"))
  else
    let pathArray := path.splitOn slash
    if pathArray.length ≠ 6 then .error (.error (ecma "Invalid path. (e.g \"m/44'/1'/5'/0/3\")"))
    else writeChildren (pathArray.drop 1) 1 (List.replicate 20 0)

/-! ## What the loop writes -/

/-- The number that the loop writes for a component. -/
def Writes (child : EcmaString) (v : Nat) : Prop :=
  ∃ value, childValue child = .ok value ∧ Double.lt (.finite 0xffffffff) value = false ∧
    Double.lt value (.finite 0) = false ∧ toUint32 value = v

/-- What is written for a component fits four bytes. -/
theorem Writes.lt {child : EcmaString} {v : Nat} (h : Writes child v) : v < 2 ^ 32 := by
  obtain ⟨value, -, -, -, rfl⟩ := h
  exact toUint32_lt value

/-- `writeUInt32LE` writes a value that is neither negative nor above the largest number of 32 bits, and throws on others. -/
theorem writeUInt32LE_eq_ok {buf buf' : List UInt8} {value : Double} {offset : Nat} (hroom : offset + 4 ≤ buf.length) :
    writeUInt32LE buf value offset = .ok buf' ↔ Double.lt (.finite 0xffffffff) value = false ∧
      Double.lt value (.finite 0) = false ∧ buf' = patch buf offset (le32 (toUint32 value)) := by
  rw [writeUInt32LE, if_neg (Nat.not_lt.2 hroom)]
  cases Double.lt (.finite 0xffffffff) value <;> cases Double.lt value (.finite 0) <;> simp [eq_comm]

/-- The loop writes one number after the other. -/
theorem writeChildren_eq_ok (pathArray : List EcmaString) :
    ∀ (j : Nat) (buf buf' : List UInt8), 4 * (j + pathArray.length) ≤ buf.length →
      (writeChildren pathArray (j + 1) buf = .ok buf' ↔
        ∃ vs, List.Forall₂ Writes pathArray vs ∧ buf' = patch buf (4 * j) (vs.flatMap le32)) := by
  induction pathArray with
  | nil =>
    intro j buf buf' _
    constructor
    · intro h
      cases h
      exact ⟨[], .nil, (patch_nil buf (4 * j)).symm⟩
    · rintro ⟨vs, hvs, rfl⟩
      cases hvs
      rw [writeChildren, List.flatMap_nil, patch_nil]
  | cons child pathArray ih =>
    intro j buf buf' hroom
    rw [List.length_cons] at hroom
    have hfits : 4 * j + 4 ≤ buf.length := by omega
    have hlen : ∀ v, (patch buf (4 * j) (le32 v)).length = buf.length := fun v => length_patch hfits
    -- the rest of the loop goes on right behind the four bytes
    have hrest : ∀ v vs, patch (patch buf (4 * j) (le32 v)) (4 * (j + 1)) (List.flatMap le32 vs) =
        patch buf (4 * j) ((v :: vs).flatMap le32) := fun v vs => patch_patch (le32 v) (vs.flatMap le32) (by omega)
    constructor
    · intro h
      obtain ⟨value, hvalue, h⟩ := except_bind_ok h
      obtain ⟨buf₁, hbuf, h⟩ := except_bind_ok h
      obtain ⟨hhi, hlo, rfl⟩ := (writeUInt32LE_eq_ok hfits).1 hbuf
      obtain ⟨vs, hvs, rfl⟩ := (ih (j + 1) _ buf' (by rw [hlen]; omega)).1 h
      exact ⟨toUint32 value :: vs, .cons ⟨value, hvalue, hhi, hlo, rfl⟩ hvs, hrest _ vs⟩
    · rintro ⟨_, hvs, rfl⟩
      cases hvs with
      | cons hwrites hvs =>
        rename_i v vs
        obtain ⟨value, hvalue, hhi, hlo, rfl⟩ := hwrites
        have hbuf : writeUInt32LE buf value (4 * j) = .ok (patch buf (4 * j) (le32 (toUint32 value))) :=
          (writeUInt32LE_eq_ok hfits).2 ⟨hhi, hlo, rfl⟩
        rw [writeChildren, hvalue]
        change (writeUInt32LE buf value (4 * j) >>= fun buf => writeChildren pathArray (j + 2) buf) = _
        rw [hbuf]
        exact (ih (j + 1) _ _ (by rw [hlen]; omega)).2 ⟨vs, hvs, (hrest _ vs).symm⟩

/-- The parts of a path behind the first one. -/
def components (path : EcmaString) : List EcmaString := (path.splitOn slash).drop 1

/-- Four bytes for each number. -/
theorem length_flatMap_le32 (vs : List Nat) : (vs.flatMap le32).length = 4 * vs.length := by
  induction vs with
  | nil => rfl
  | cons v vs ih =>
    rw [List.flatMap_cons, List.length_append, ih, List.length_cons]
    exact Nat.add_comm 4 (4 * vs.length)

/-- The loop fills the buffer with the numbers of five components, four bytes each. -/
theorem writeChildren_components {path : EcmaString} (hlen : (path.splitOn slash).length = 6) (buf : List UInt8) :
    writeChildren (components path) 1 (List.replicate 20 0) = .ok buf ↔
      ∃ vs, List.Forall₂ Writes (components path) vs ∧ buf = vs.flatMap le32 := by
  have hfive : (components path).length = 5 := by rw [components, List.length_drop, hlen]
  rw [writeChildren_eq_ok (components path) 0 (List.replicate 20 0) buf (by rw [hfive, List.length_replicate])]
  refine exists_congr fun vs => and_congr_right fun hvs => ?_
  have hlong : (vs.flatMap le32).length = 20 := by rw [length_flatMap_le32, ← hvs.length_eq, hfive]
  rw [patch, Nat.mul_zero, List.take_zero, List.nil_append, Nat.zero_add, hlong, List.drop_replicate, Nat.sub_self,
    List.replicate_zero, List.append_nil]

/-- What `serializePathv1` returns, and when. -/
theorem serializePathv1_eq_ok {path : EcmaString} {buf : List UInt8} :
    serializePathv1 path = .ok buf ↔ path.head? = some (unit 'm') ∧ (path.splitOn slash).length = 6 ∧
      ∃ vs, List.Forall₂ Writes (components path) vs ∧ buf = vs.flatMap le32 := by
  constructor
  · intro h
    unfold serializePathv1 at h
    split at h
    · cases h
    rename_i hhead
    simp only at h
    split at h
    · cases h
    rename_i hlen
    exact ⟨not_not.1 hhead, not_not.1 hlen, (writeChildren_components (not_not.1 hlen) buf).1 h⟩
  · rintro ⟨hhead, hlen, hvs⟩
    rw [serializePathv1, if_neg (not_not.2 hhead)]
    simp only
    rw [if_neg (not_not.2 hlen)]
    exact (writeChildren_components hlen buf).2 hvs

example : serializePathv1 (ecma "m/44'/472'/0'/0/1") =
    .ok ([44, 472].flatMap (fun n => le32 (2 ^ 31 + n)) ++ le32 (2 ^ 31) ++ le32 0 ++ le32 1) := by decide +kernel

/-! ## Components of decimal digits -/

/-- The mark behind the digits of a hardened component. -/
def mark (hardened : Bool) : EcmaString := if hardened then [apostrophe] else []

/-- The bit that says that a component is hardened. -/
def hardenedBit (hardened : Bool) : Nat := if hardened then 2 ^ 31 else 0

/-- The apostrophe tells whether a component is hardened. -/
theorem mark_inj {a b : Bool} : mark a = mark b ↔ a = b := by
  cases a <;> cases b <;> decide

@[simp] theorem hardenedBit_true : hardenedBit true = 2 ^ 31 := rfl

@[simp] theorem hardenedBit_false : hardenedBit false = 0 := rfl

theorem hardenedBit_le (hardened : Bool) : hardenedBit hardened ≤ 2 ^ 31 := by
  cases hardened <;> decide

/-- A mark decides what the number in front of it is added to. -/
theorem childValue_mark {ds : EcmaString} (hlast : ds.getLast? ≠ some apostrophe) (marked : Bool) :
    childValue (ds ++ mark marked) =
      if stringToNumber ds = .nan then
        .error (.error (ecma "Invalid path : " ++ ds ++ ecma " is not a number. (e.g \"m/44'/1'/5'/0/3\")"))
      else if Double.le hardened (stringToNumber ds) then
        .error (.error (ecma "Incorrect child value (bigger or equal to 0x80000000)"))
      else .ok (Double.add (.finite (hardenedBit marked : Nat)) (stringToNumber ds)) := by
  cases marked with
  | true =>
    have hzero : Double.add (.finite 0) hardened = .finite (hardenedBit true : Nat) := by decide +kernel
    rw [childValue, mark, if_pos rfl, List.getLast?_concat, List.dropLast_concat, if_pos rfl, hzero]
    simp only [if_true]
  | false =>
    rw [childValue, mark, if_neg Bool.false_ne_true, List.append_nil, if_neg hlast]
    simp only [hlast, if_false]
    rfl

/-- What the loop does with digits, marked or not. -/
theorem childValue_digits {ds : EcmaString} (hds : IsDigits 10 ds) (marked : Bool) :
    (digitsValue 10 ds < 2 ^ 31 →
      childValue (ds ++ mark marked) = .ok (.finite ((hardenedBit marked + digitsValue 10 ds : Nat) : ℚ))) ∧
    (2 ^ 31 ≤ digitsValue 10 ds → ∃ e, childValue (ds ++ mark marked) = .error e) := by
  have hlast : ds.getLast? ≠ some apostrophe := by
    intro h
    exact ne_of_isDigitOf_ten (all_of_isDigits hds _ (List.mem_of_getLast? h)) (by decide) rfl
  rw [childValue_mark hlast, stringToNumber_of_isDigits hds]
  constructor
  · intro hlt
    have hsmall : ¬Double.le hardened (.finite (digitsValue 10 ds)) = true := by
      rw [hardened, Double.le, decide_eq_true_eq, not_le]
      exact_mod_cast hlt
    have hsum : hardenedBit marked + digitsValue 10 ds < 2 ^ 53 := by
      have hbit := hardenedBit_le marked
      omega
    rw [Double.ofRat_natCast (hlt.trans (by decide)), if_neg (by simp), if_neg hsmall, Double.add_natCast hsum]
  · intro hle
    have hrat : (2 : ℚ) ^ 31 ≤ digitsValue 10 ds := by exact_mod_cast hle
    have hge : Double.le hardened (Double.ofRat (digitsValue 10 ds)) = true := by
      have h := Double.le_ofRat hrat
      rwa [show (2 : ℚ) ^ 31 = 0x80000000 by norm_num] at h
    rw [if_pos hge]
    split
    · exact ⟨_, rfl⟩
    · exact ⟨_, rfl⟩

/-- Digits are written when what they denote fits below the bit that marks a hardened component, and then as they should be. -/
theorem writes_digits {ds : EcmaString} (hds : IsDigits 10 ds) (marked : Bool) (v : Nat) :
    Writes (ds ++ mark marked) v ↔ digitsValue 10 ds < 2 ^ 31 ∧ v = hardenedBit marked + digitsValue 10 ds := by
  obtain ⟨hok, herr⟩ := childValue_digits hds marked
  have hbit := hardenedBit_le marked
  constructor
  · rintro ⟨value, hvalue, -, -, rfl⟩
    by_cases hlt : digitsValue 10 ds < 2 ^ 31
    · cases (hok hlt).symm.trans hvalue
      exact ⟨hlt, toUint32_natCast (by omega)⟩
    · obtain ⟨e, he⟩ := herr (Nat.not_lt.1 hlt)
      cases he.symm.trans hvalue
  · rintro ⟨hlt, rfl⟩
    have hfits : hardenedBit marked + digitsValue 10 ds ≤ 0xffffffff := by omega
    refine ⟨_, hok hlt, ?_, ?_, toUint32_natCast (by omega)⟩
    · rw [Double.lt, decide_eq_false_iff_not, not_lt]
      exact_mod_cast hfits
    · rw [Double.lt, decide_eq_false_iff_not, not_lt]
      exact Nat.cast_nonneg _

/-! ## Reading back -/

/-- A number is read from where its four bytes are. -/
theorem readUInt32LE_of_slice {buf : List UInt8} {offset v : Nat} (hv : v < 2 ^ 32) (h : slice buf offset 4 = le32 v) :
    readUInt32LE buf offset = .ok v := by
  rw [readUInt32LE, h, le32]
  simp only [UInt8.toNat_ofNat', Nat.shiftRight_eq_div_pow]
  congr 1
  omega

/-- The bytes of a number, where they stand. -/
theorem slice_flatMap_le32 {vs : List Nat} : ∀ {i : Nat} (hi : i < vs.length), slice (vs.flatMap le32) (4 * i) 4 = le32 vs[i] := by
  induction vs with
  | nil =>
    intro i hi
    cases hi
  | cons v vs ih =>
    intro i hi
    cases i with
    | zero => rfl
    | succ i =>
      have hdrop : (le32 v ++ vs.flatMap le32).drop 4 = vs.flatMap le32 := List.drop_left' rfl
      rw [List.flatMap_cons, List.getElem_cons_succ, ← ih (Nat.lt_of_succ_lt_succ hi), slice, Nat.mul_succ, Nat.add_comm,
        ← List.drop_drop, hdrop, slice]

/-- The numbers of a path are read where they were written. -/
theorem readUInt32LE_flatMap {vs : List Nat} (hvs : ∀ v ∈ vs, v < 2 ^ 32) (i : Nat) {v : Nat} (hi : vs[i]? = some v) :
    readUInt32LE (vs.flatMap le32) (4 * i) = .ok v := by
  obtain ⟨hlt, rfl⟩ := List.getElem?_eq_some_iff.1 hi
  exact readUInt32LE_of_slice (hvs _ (List.getElem_mem hlt)) (slice_flatMap_le32 hlt)

/-- All five of them. -/
theorem mapM_readUInt32LE {vs : List Nat} (hlen : vs.length = 5) (hvs : ∀ v ∈ vs, v < 2 ^ 32) :
    ([0, 1, 2, 3, 4].mapM fun i => readUInt32LE (vs.flatMap le32) (4 * i)) = .ok vs := by
  match vs, hlen, hvs with
  | [a, b, c, d, e], _, hvs =>
    simp only [List.mapM_cons, List.mapM_nil, readUInt32LE_flatMap hvs 0 rfl, readUInt32LE_flatMap hvs 1 rfl,
      readUInt32LE_flatMap hvs 2 rfl, readUInt32LE_flatMap hvs 3 rfl, readUInt32LE_flatMap hvs 4 rfl]
    rfl

/-- `printBIP44Path` prints the numbers that `serializePathv1` wrote. -/
theorem printBIP44Path_flatMap {vs : List Nat} (hlen : vs.length = 5) (hvs : ∀ v ∈ vs, v < 2 ^ 32) :
    printBIP44Path (vs.flatMap le32) = .ok ([slash].intercalate (ecma "m" :: vs.map printBIP44Item)) := by
  have hsize : (vs.flatMap le32).length = 20 := by rw [length_flatMap_le32, hlen]
  rw [printBIP44Path, if_neg (not_not.2 hsize), mapM_readUInt32LE hlen hvs]
  rfl

end LedgerArweave
