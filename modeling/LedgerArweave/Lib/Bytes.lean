import Mathlib.Data.List.Basic

/-!
# Byte lists

What a model of buffer-handling code needs of byte lists and nothing of any program: byte arrays of a fixed length, the slice
of a memory region that a pointer and a length name, overwriting part of a region in place, and blobs that carry their length
in front of them as a 16-bit big-endian number.
-/

namespace Lib

/-- A byte array of `n` bytes: the length is part of the type. -/
abbrev ByteArr (n : Nat) : Type := { l : List UInt8 // l.length = n }

/-- The byte array of `n` zero bytes. -/
def ByteArr.zero (n : Nat) : ByteArr n := ⟨List.replicate n 0, List.length_replicate⟩

/-- The first `n` bytes of a list, zeros where the list is shorter. -/
def ByteArr.ofList (n : Nat) (l : List UInt8) : ByteArr n :=
  ⟨(l ++ List.replicate n 0).take n, by simp⟩

/-- An array made of a list of its length holds this list. -/
@[simp] theorem ByteArr.ofList_val {n : Nat} {l : List UInt8} (h : l.length = n) : (ByteArr.ofList n l).1 = l := by
  subst h
  simp [ByteArr.ofList]

/-- The bytes of a character string whose characters are ASCII. -/
def ascii (s : String) : List UInt8 := s.toList.map (fun c => UInt8.ofNat c.toNat)

/-- The ASCII digits of a number in base ten. -/
def decimal (n : Nat) : List UInt8 := (Nat.toDigits 10 n).map (fun c => UInt8.ofNat c.toNat)

/-! ## Slices -/

/-- The `n` bytes of a region from offset `o` on (fewer when the region ends before). -/
def slice {α : Type} (l : List α) (o n : Nat) : List α := (l.drop o).take n

/-- A slice inside the list has its length. -/
theorem length_slice {α : Type} {l : List α} {o n : Nat} (h : o + n ≤ l.length) : (slice l o n).length = n := by
  simp only [slice, List.length_take, List.length_drop]
  omega

/-- A slice is made of its first part and the rest. -/
theorem slice_add {α : Type} (l : List α) (o n m : Nat) : slice l o (n + m) = slice l o n ++ slice l (o + n) m := by
  simp only [slice, List.take_add, List.drop_drop]

/-- Pieces of `n` bytes, put end to end, are the slice they were cut from. -/
theorem flatten_slices {α : Type} (l : List α) (n : Nat) :
    ∀ k o, ((List.range' o k n).map fun i => slice l i n).flatten = slice l o (k * n) := by
  intro k
  induction k with
  | zero =>
    intro o
    simp [slice]
  | succ k ih =>
    intro o
    rw [List.range'_succ, List.map_cons, List.flatten_cons, ih, Nat.succ_mul, Nat.add_comm (k * n), slice_add]

/-- No slice is longer than asked for. -/
theorem length_slice_le {α : Type} (l : List α) (o n : Nat) : (slice l o n).length ≤ n := by
  simp only [slice, List.length_take]
  omega

/-- A slice of a region lies inside the part of the region before `k` when it ends at or before `k`. -/
theorem slice_take {α : Type} {l : List α} {o n k : Nat} (h : o + n ≤ k) : slice (l.take k) o n = slice l o n := by
  simp only [slice, List.drop_take, List.take_take]
  congr 1
  omega

/-- Two regions that agree before `k` have the same slices there. -/
theorem slice_congr {α : Type} {l l' : List α} {k : Nat} (h : l.take k = l'.take k) {o n : Nat} (hk : o + n ≤ k) :
    slice l o n = slice l' o n := by
  rw [← slice_take hk, h, slice_take hk]

/-! ## Overwriting in place -/

/-- The region `l` with the bytes from offset `o` on overwritten by `bs`. -/
def patch {α : Type} (l : List α) (o : Nat) (bs : List α) : List α := l.take o ++ bs ++ l.drop (o + bs.length)

/-- A write inside the list leaves it its length. -/
theorem length_patch {α : Type} {l : List α} {o : Nat} {bs : List α} (h : o + bs.length ≤ l.length) :
    (patch l o bs).length = l.length := by
  simp only [patch, List.length_append, List.length_take, List.length_drop]
  omega

/-- Writing nothing. -/
@[simp] theorem patch_nil {α : Type} (l : List α) (o : Nat) : patch l o [] = l := by
  rw [patch, List.append_nil, List.length_nil, Nat.add_zero, List.take_append_drop]

/-- Overwriting from `o` on leaves the bytes before `o` alone. -/
theorem take_patch_of_le {α : Type} {l : List α} {o : Nat} {bs : List α} {k : Nat} (hk : k ≤ o) (ho : o ≤ l.length) :
    (patch l o bs).take k = l.take k := by
  have hlen : (l.take o).length = o := List.length_take_of_le ho
  rw [patch, List.append_assoc, List.take_append_of_le_length (by omega), List.take_take, Nat.min_eq_left hk]

/-- What the region holds up to the end of the overwritten part. -/
theorem take_patch {α : Type} {l : List α} {o : Nat} (bs : List α) (ho : o ≤ l.length) :
    (patch l o bs).take (o + bs.length) = l.take o ++ bs := by
  have hlen : (l.take o ++ bs).length = o + bs.length := by
    rw [List.length_append, List.length_take_of_le ho]
  rw [patch, ← hlen, List.take_left']
  rfl

/-- Overwriting from `o` on, and then from where that ended, is overwriting once. -/
theorem patch_patch {α : Type} {l : List α} {o : Nat} (a b : List α) (h : o ≤ l.length) :
    patch (patch l o a) (o + a.length) b = patch l o (a ++ b) := by
  have hlen : (l.take o ++ a).length = o + a.length := by
    rw [List.length_append, List.length_take_of_le h]
  have hdrop : (patch l o a).drop (o + a.length + b.length) = l.drop (o + (a ++ b).length) := by
    rw [patch, ← hlen, ← List.drop_drop, List.drop_left' rfl, List.drop_drop, hlen, List.length_append, Nat.add_assoc]
  rw [patch, take_patch a h, hdrop, patch, List.append_assoc (l.take o) a b]

/-! ## Blobs with a length in front -/

/-- The two bytes of a 16-bit big-endian number. -/
def be16 (n : Nat) : List UInt8 := [UInt8.ofNat (n / 256), UInt8.ofNat n]

/-- A 16-bit number has two bytes. -/
@[simp] theorem length_be16 (n : Nat) : (be16 n).length = 2 := rfl

/-- The number two bytes stand for, most significant byte first. -/
def ofBe16 (hi lo : UInt8) : Nat := hi.toNat * 256 + lo.toNat

/-- Two bytes are a number of 16 bits. -/
theorem ofBe16_lt (hi lo : UInt8) : ofBe16 hi lo < 65536 := by
  have h1 := hi.toNat_lt
  have h2 := lo.toNat_lt
  simp only [ofBe16]
  omega

/-- Two bytes, read as a number and written again. -/
theorem be16_ofBe16 (hi lo : UInt8) : be16 (ofBe16 hi lo) = [hi, lo] := by
  have h2 := lo.toNat_lt
  have e1 : ofBe16 hi lo / 256 = hi.toNat := by simp only [ofBe16]; omega
  have e2 : UInt8.ofNat (ofBe16 hi lo) = lo := by
    apply UInt8.toNat.inj
    rw [UInt8.toNat_ofNat']
    simp only [ofBe16]
    omega
  rw [be16, e1, e2, UInt8.ofNat_toNat]

/-- A number of 16 bits, written as bytes and read again. -/
theorem ofBe16_be16 {n : Nat} (h : n < 65536) : ofBe16 (UInt8.ofNat (n / 256)) (UInt8.ofNat n) = n := by
  simp only [ofBe16, UInt8.toNat_ofNat']
  omega

/-- A blob with its length in front of it. -/
def prefixed (bs : List UInt8) : List UInt8 := be16 bs.length ++ bs

/-- The two bytes of the length are in front of a blob. -/
@[simp] theorem length_prefixed (bs : List UInt8) : (prefixed bs).length = 2 + bs.length := by
  simp [prefixed]

/-- Two bytes determine a number of 16 bits. -/
theorem be16_inj {m n : Nat} (hm : m < 65536) (hn : n < 65536) (h : be16 m = be16 n) : m = n := by
  simp only [be16, List.cons.injEq, and_true] at h
  rw [← ofBe16_be16 hm, h.1, h.2, ofBe16_be16 hn]

/-- A number in front of a list is read back, with the rest. -/
theorem be16_append_inj {m n : Nat} (hm : m < 65536) (hn : n < 65536) {s t : List UInt8}
    (h : be16 m ++ s = be16 n ++ t) : m = n ∧ s = t := by
  obtain ⟨h1, h2⟩ := List.append_inj h rfl
  exact ⟨be16_inj hm hn h1, h2⟩

/-- A blob with its length in front of a list is read back, with the rest, where the list is short enough for lengths to be
16-bit numbers. -/
theorem prefixed_append_inj {a b s t : List UInt8} (hlen : (prefixed a ++ s).length < 65536)
    (h : prefixed a ++ s = prefixed b ++ t) : a = b ∧ s = t ∧ s.length < 65536 := by
  have hlen' := congrArg List.length h
  simp only [List.length_append, length_prefixed] at hlen hlen'
  rw [prefixed, prefixed, List.append_assoc, List.append_assoc] at h
  obtain ⟨hn, hrest⟩ := be16_append_inj (by omega) (by omega) h
  obtain ⟨hab, hst⟩ := List.append_inj hrest hn
  exact ⟨hab, hst, by omega⟩

/-- A list that opens with a blob and its length opens with the two bytes of the length. -/
theorem slice_of_prefixed {l f t : List UInt8} {o : Nat} (h : l.drop o = prefixed f ++ t) :
    slice l (o + 2) f.length = f ∧ l.drop (o + 2 + f.length) = t ∧ o + 2 + f.length ≤ l.length := by
  have hlen := congrArg List.length h
  simp only [List.length_drop, List.length_append, length_prefixed] at hlen
  refine ⟨?_, ?_, by omega⟩
  · rw [slice, ← List.drop_drop, h]
    simp [prefixed, be16]
  · rw [← List.drop_drop, ← List.drop_drop, h]
    simp [prefixed, be16]

end Lib
