import LedgerArweave.Parser.Types
import LedgerArweave.Lib.Sextets
import Mathlib.Data.List.Nodup

/-!
# Base64url

`b64url.c`. The loop carries the bits that do not fill a character yet (their number and their value) and writes characters
one after the other; the buffer was cleared before, so what the loop does not write is zero.
-/

namespace LedgerArweave

open Lib

/-- `b64url_charset`. -/
def b64urlCharset : List UInt8 := ascii "ABCDEFGHIJKLMNOPQRSTUVWXYZabcdefghijklmnopqrstuvwxyz0123456789-_"

/-- `b64url_charset[idx]`. -/
def b64urlChar (idx : UInt8) : UInt8 := b64urlCharset.getD idx.toNat 0

/-- What the loop of `b64url_encode` carries: the bits left over, and the characters written. -/
structure B64State where
  carryCount : Nat
  carryValue : UInt8
  out : List UInt8
  deriving DecidableEq, Repr

/-- One round of the loop of `b64url_encode`. -/
def b64urlByte (s : B64State) (c : UInt8) : B64State :=
  let shift := 6 - s.carryCount
  let idx := UInt8.ofNat ((s.carryValue.toNat <<< shift) ||| (c.toNat >>> (s.carryCount + 2)))
  let carryValue := UInt8.ofNat (c.toNat &&& (0xff >>> shift))
  let carryCount := s.carryCount + 2
  let out := s.out ++ [b64urlChar idx]
  -- check if we have another complete character ready
  if carryCount = 6 then ⟨0, 0, out ++ [b64urlChar carryValue]⟩ else ⟨carryCount, carryValue, out⟩

/-- The characters `b64url_encode` writes for an input. -/
def b64urlText (input : List UInt8) : List UInt8 :=
  let s := input.foldl b64urlByte ⟨0, 0, []⟩
  -- if there is any left over, add it
  if s.carryCount > 0 then s.out ++ [b64urlChar (UInt8.ofNat (s.carryValue.toNat <<< (6 - s.carryCount)))] else s.out

/-- The room `b64url_encode` asks for. -/
def b64urlMinimumBufferSize (inlen : Nat) : Nat :=
  let minspace := inlen / 3
  inlen + (if inlen % 3 ≠ 0 then minspace + 1 else minspace)

/-- `b64url_encode`: the number it returns (0 for an error) and the buffer of `outlen` bytes it leaves; none when the input is
`NULL`, where the buffer is not touched. -/
def b64urlEncode (outlen : Nat) (mem : Mem) (input : ParserElement) : Option (Nat × List UInt8) :=
  match input.ptr with
  | none => none
  | some _ =>
    if b64urlMinimumBufferSize input.len > outlen then some (0, List.replicate outlen 0)
    else
      let text := b64urlText (input.bytes mem)
      some (text.length, text ++ List.replicate (outlen - text.length) 0)

example : b64urlText (ascii "Man") = ascii "TWFu" := by decide

/-! ## The characters -/

/-- The characters of a list of groups of six bits. -/
def b64urlChars (groups : List Nat) : List UInt8 := groups.map fun i => b64urlChar (UInt8.ofNat i)

/-- What was written before stays in front. -/
theorem foldl_b64urlByte_out (l : List UInt8) (n : Nat) (v : UInt8) (out : List UInt8) :
    l.foldl b64urlByte ⟨n, v, out⟩ =
      { l.foldl b64urlByte ⟨n, v, []⟩ with out := out ++ (l.foldl b64urlByte ⟨n, v, []⟩).out } := by
  induction l generalizing n v out with
  | nil => simp
  | cons c l ih =>
    have hstep : ∀ o, b64urlByte ⟨n, v, o⟩ c =
        ⟨(b64urlByte ⟨n, v, []⟩ c).carryCount, (b64urlByte ⟨n, v, []⟩ c).carryValue, o ++ (b64urlByte ⟨n, v, []⟩ c).out⟩ := by
      intro o
      unfold b64urlByte
      simp only
      split <;> simp
    rw [List.foldl_cons, List.foldl_cons, hstep out, ih _ _ (out ++ _),
      ih (b64urlByte ⟨n, v, []⟩ c).carryCount (b64urlByte ⟨n, v, []⟩ c).carryValue (b64urlByte ⟨n, v, []⟩ c).out]
    simp

theorem toNat_ofNat_of_lt {v : Nat} (h : v < 256) : (UInt8.ofNat v).toNat = v := UInt8.toNat_ofNat_of_lt' h

/-- The first byte of three. -/
theorem b64urlByte_first (out : List UInt8) (a : UInt8) :
    b64urlByte ⟨0, 0, out⟩ a = ⟨2, UInt8.ofNat (a.toNat % 4), out ++ [b64urlChar (UInt8.ofNat (a.toNat / 4))]⟩ := by
  have h1 : a.toNat >>> 2 = a.toNat / 4 := Nat.shiftRight_eq_div_pow _ 2
  have h2 : a.toNat &&& (0xff >>> 6) = a.toNat % 4 := Nat.and_two_pow_sub_one_eq_mod _ 2
  simp only [b64urlByte, Nat.zero_add, Nat.sub_zero, UInt8.toNat_zero, Nat.zero_shiftLeft, Nat.zero_or, h1, h2]
  rfl

/-- The second byte of three, behind what the first one left over. -/
theorem b64urlByte_second (out : List UInt8) {v : Nat} (hv : v < 4) (b : UInt8) :
    b64urlByte ⟨2, UInt8.ofNat v, out⟩ b =
      ⟨4, UInt8.ofNat (b.toNat % 16), out ++ [b64urlChar (UInt8.ofNat (v * 16 + b.toNat / 16))]⟩ := by
  have hb := b.toNat_lt
  have h1 : b.toNat >>> 4 = b.toNat / 16 := Nat.shiftRight_eq_div_pow _ 4
  have h2 : b.toNat &&& (0xff >>> 4) = b.toNat % 16 := Nat.and_two_pow_sub_one_eq_mod _ 4
  have h3 : v <<< 4 ||| b.toNat / 16 = v * 16 + b.toNat / 16 := by
    rw [← Nat.shiftLeft_add_eq_or_of_lt (by omega), Nat.shiftLeft_eq]
  simp only [b64urlByte, Nat.reduceAdd, Nat.reduceSub, toNat_ofNat_of_lt (show v < 256 by omega), h1, h2, h3]
  rfl

/-- The third byte of three: nothing is left over. -/
theorem b64urlByte_third (out : List UInt8) {v : Nat} (hv : v < 16) (c : UInt8) :
    b64urlByte ⟨4, UInt8.ofNat v, out⟩ c =
      ⟨0, 0, out ++ [b64urlChar (UInt8.ofNat (v * 4 + c.toNat / 64)), b64urlChar (UInt8.ofNat (c.toNat % 64))]⟩ := by
  have hc := c.toNat_lt
  have h1 : c.toNat >>> 6 = c.toNat / 64 := Nat.shiftRight_eq_div_pow _ 6
  have h2 : c.toNat &&& (0xff >>> 2) = c.toNat % 64 := Nat.and_two_pow_sub_one_eq_mod _ 6
  have h3 : v <<< 2 ||| c.toNat / 64 = v * 4 + c.toNat / 64 := by
    rw [← Nat.shiftLeft_add_eq_or_of_lt (by omega), Nat.shiftLeft_eq]
  simp only [b64urlByte, Nat.reduceAdd, Nat.reduceSub, toNat_ofNat_of_lt (show v < 256 by omega), h1, h2, h3, if_true,
    List.append_assoc, List.cons_append, List.nil_append]

/-- `b64url_encode` writes the characters of the groups of six bits of its input. -/
theorem b64urlText_eq (l : List UInt8) : b64urlText l = b64urlChars (sextets l) := by
  induction l using sextets.induct with
  | case1 => rfl
  | case2 a =>
    have hleft : (UInt8.ofNat (a.toNat % 4)).toNat = a.toNat % 4 := toNat_ofNat_of_lt (by omega)
    simp only [b64urlText, List.foldl_cons, List.foldl_nil, b64urlByte_first, hleft, Nat.shiftLeft_eq]
    rfl
  | case3 a b =>
    have ha : a.toNat % 4 < 4 := Nat.mod_lt _ (by decide)
    have hleft : (UInt8.ofNat (b.toNat % 16)).toNat = b.toNat % 16 := toNat_ofNat_of_lt (by omega)
    simp only [b64urlText, List.foldl_cons, List.foldl_nil, b64urlByte_first, b64urlByte_second _ ha, hleft,
      Nat.shiftLeft_eq]
    rfl
  | case4 a b c rest ih =>
    have ha : a.toNat % 4 < 4 := Nat.mod_lt _ (by decide)
    have hb : b.toNat % 16 < 16 := Nat.mod_lt _ (by decide)
    have hrest : b64urlText (a :: b :: c :: rest) =
        [b64urlChar (UInt8.ofNat (a.toNat / 4)), b64urlChar (UInt8.ofNat (a.toNat % 4 * 16 + b.toNat / 16)),
          b64urlChar (UInt8.ofNat (b.toNat % 16 * 4 + c.toNat / 64)), b64urlChar (UInt8.ofNat (c.toNat % 64))] ++
          b64urlText rest := by
      simp only [b64urlText, List.foldl_cons, b64urlByte_first, b64urlByte_second _ ha, b64urlByte_third _ hb]
      rw [foldl_b64urlByte_out]
      simp only [List.nil_append, List.cons_append]
      split <;> rfl
    rw [hrest, ih]
    rfl

/-- No two groups of six bits have the same character, and no character is a zero byte. -/
theorem b64urlCharset_nodup : b64urlCharset.Nodup ∧ 0 ∉ b64urlCharset := by decide

theorem b64urlChar_eq {i : Nat} (hi : i < 64) :
    ∃ h : i < b64urlCharset.length, b64urlChar (UInt8.ofNat i) = b64urlCharset.get ⟨i, h⟩ := by
  have hlen : b64urlCharset.length = 64 := by decide
  refine ⟨by omega, ?_⟩
  rw [b64urlChar, toNat_ofNat_of_lt (by omega), List.getD_eq_getElem?_getD, List.getElem?_eq_getElem (by omega)]
  rfl

theorem b64urlChars_inj {l m : List Nat} (hl : ∀ i ∈ l, i < 64) (hm : ∀ i ∈ m, i < 64)
    (h : b64urlChars l = b64urlChars m) : l = m := by
  induction l generalizing m with
  | nil => exact (List.map_eq_nil_iff.1 h.symm).symm
  | cons i l ih =>
    cases m with
    | nil => cases h
    | cons j m =>
      simp only [b64urlChars, List.map_cons, List.cons.injEq] at h
      obtain ⟨hi, hchar⟩ := b64urlChar_eq (hl i (List.mem_cons_self ..))
      obtain ⟨hj, hchar'⟩ := b64urlChar_eq (hm j (List.mem_cons_self ..))
      rw [hchar, hchar'] at h
      have hij : i = j := congrArg Fin.val (List.nodup_iff_injective_get.1 b64urlCharset_nodup.1 h.1)
      rw [hij, ih (fun k hk => hl k (List.mem_cons_of_mem _ hk)) (fun k hk => hm k (List.mem_cons_of_mem _ hk)) h.2]

/-- A text shows its bytes: no two inputs have the same text. -/
theorem b64urlText_injective : Function.Injective b64urlText := by
  intro l m h
  rw [b64urlText_eq, b64urlText_eq] at h
  have hgroups := b64urlChars_inj (sextets_lt l) (sextets_lt m) h
  refine sextets_inj ?_ hgroups
  have hlen := congrArg List.length hgroups
  rw [length_sextets, length_sextets] at hlen
  omega

/-- The characters of a text hold no zero byte. -/
theorem zero_not_mem_b64urlText (l : List UInt8) : 0 ∉ b64urlText l := by
  rw [b64urlText_eq]
  intro h
  obtain ⟨i, hi, h0⟩ := List.mem_map.1 h
  obtain ⟨hlt, hchar⟩ := b64urlChar_eq (sextets_lt l i hi)
  rw [hchar] at h0
  exact b64urlCharset_nodup.2 (h0 ▸ List.get_mem b64urlCharset ⟨i, hlt⟩)

/-- A text takes exactly the room `b64url_encode` asks for. -/
theorem length_b64urlText (l : List UInt8) : (b64urlText l).length = b64urlMinimumBufferSize l.length := by
  rw [b64urlText_eq, b64urlChars, List.length_map, length_sextets, b64urlMinimumBufferSize]
  split <;> omega

end LedgerArweave
