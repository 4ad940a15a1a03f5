import Mathlib.Data.List.Basic

/-!
# Bytes cut into groups of six bits

What base64 does before it looks up characters: three bytes become four numbers below 64, and one or two bytes that are left
over become two or three, the missing bits zero. The bytes are read back from the numbers (`sextets_inj`).
-/

namespace Lib

/-- The groups of six bits of a list of bytes, most significant bits first. -/
def sextets : List UInt8 → List Nat
  | [] => []
  | [a] => [a.toNat / 4, a.toNat % 4 * 16]
  | [a, b] => [a.toNat / 4, a.toNat % 4 * 16 + b.toNat / 16, b.toNat % 16 * 4]
  | a :: b :: c :: rest =>
    a.toNat / 4 :: (a.toNat % 4 * 16 + b.toNat / 16) :: (b.toNat % 16 * 4 + c.toNat / 64) :: c.toNat % 64 :: sextets rest

theorem sextets_lt (l : List UInt8) : ∀ i ∈ sextets l, i < 64 := by
  induction l using sextets.induct with
  | case1 =>
    intro i hi
    cases hi
  | case2 a =>
    have := a.toNat_lt
    simp only [sextets, List.mem_cons, List.not_mem_nil, or_false]
    rintro i (rfl | rfl) <;> omega
  | case3 a b =>
    have ha := a.toNat_lt
    have hb := b.toNat_lt
    simp only [sextets, List.mem_cons, List.not_mem_nil, or_false]
    rintro i (rfl | rfl | rfl) <;> omega
  | case4 a b c rest ih =>
    have ha := a.toNat_lt
    have hb := b.toNat_lt
    have hc := c.toNat_lt
    simp only [sextets, List.mem_cons]
    rintro i (rfl | rfl | rfl | rfl | hi)
    · omega
    · omega
    · omega
    · omega
    · exact ih i hi

/-- Four groups for every three bytes, and one more for the bytes left over than there are such bytes. -/
theorem length_sextets (l : List UInt8) : (sextets l).length = l.length + (l.length + 2) / 3 := by
  induction l using sextets.induct with
  | case1 => rfl
  | case2 a => simp only [sextets, List.length_cons, List.length_nil]
  | case3 a b => simp only [sextets, List.length_cons, List.length_nil]
  | case4 a b c rest ih =>
    simp only [sextets, List.length_cons, ih]
    omega

/-- The bytes are read back from their groups. -/
theorem sextets_inj : ∀ {l m : List UInt8}, l.length = m.length → sextets l = sextets m → l = m := by
  intro l
  induction l using sextets.induct with
  | case1 =>
    intro m hlen _
    exact (List.length_eq_zero_iff.1 hlen.symm).symm
  | case2 a =>
    intro m hlen h
    obtain ⟨a', rfl⟩ := List.length_eq_one_iff.1 hlen.symm
    simp only [sextets, List.cons.injEq, and_true] at h
    rw [UInt8.toNat_inj.1 (show a.toNat = a'.toNat by omega)]
  | case3 a b =>
    intro m hlen h
    obtain ⟨a', b', rfl⟩ := List.length_eq_two.1 hlen.symm
    have hb := b.toNat_lt
    have hb' := b'.toNat_lt
    simp only [sextets, List.cons.injEq, and_true] at h
    rw [UInt8.toNat_inj.1 (show a.toNat = a'.toNat by omega), UInt8.toNat_inj.1 (show b.toNat = b'.toNat by omega)]
  | case4 a b c rest ih =>
    intro m hlen h
    match m, hlen with
    | a' :: b' :: c' :: rest', hlen =>
      have hb := b.toNat_lt
      have hb' := b'.toNat_lt
      have hc := c.toNat_lt
      have hc' := c'.toNat_lt
      simp only [sextets, List.cons.injEq] at h
      obtain ⟨h1, h2, h3, h4, hrest⟩ := h
      rw [UInt8.toNat_inj.1 (show a.toNat = a'.toNat by omega), UInt8.toNat_inj.1 (show b.toNat = b'.toNat by omega),
        UInt8.toNat_inj.1 (show c.toNat = c'.toNat by omega), ih (by simpa using hlen) hrest]

end Lib
