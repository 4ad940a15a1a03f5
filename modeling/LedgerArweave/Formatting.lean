import LedgerArweave.Parser.Items
import LedgerArweave.Lib.FixedPoint
import LedgerArweave.Lib.Pages
import LedgerArweave.Demo
import Mathlib.Tactic.NthRewrite

/-!
# The formatting routines

What the app relies on of the formatting routines it links against, stated for every input: `pageStringExt` cuts a text into
pages of one byte less than the value buffer holds and reports their number in one byte, `intstr_to_fpstr_inplace` writes a
numeral with a point, `z_str3join` puts a text in front and behind, and `number_inplace_trimming` leaves out zeros at the end.
-/

namespace LedgerArweave

open Lib

/-- The formatting routines do what their documentation says. -/
structure Platform.Formats (P : Platform) : Prop where
  /-- The value buffer ends in a terminator. -/
  pageEnd : ∀ outValLen text pageIdx, 2 ≤ outValLen →
    ∃ shown, shown.length = outValLen - 1 ∧ (P.pageStringExt outValLen text pageIdx).1 = shown ++ [0]
  /-- The number of pages is reported in one byte. -/
  pageCount : ∀ outValLen text pageIdx, 2 ≤ outValLen →
    (P.pageStringExt outValLen text pageIdx).2 = numPages (outValLen - 1) text.length % 256
  /-- A page of a text whose number of pages fits one byte, with zeros behind it. -/
  page : ∀ outValLen text pageIdx, 2 ≤ outValLen → numPages (outValLen - 1) text.length ≤ 255 →
    (P.pageStringExt outValLen text pageIdx).1 = slice text (pageIdx * (outValLen - 1)) (outValLen - 1) ++
      List.replicate (outValLen - (slice text (pageIdx * (outValLen - 1)) (outValLen - 1)).length) 0
  /-- A numeral is refused when a character is no digit or when there is no room for the result and its terminator. -/
  fpstrFails : ∀ buf decimals, 0 < decimals → ((P.intstrToFpstrInplace buf decimals).1 = 0 ↔
    (∃ b ∈ cString buf, ¬IsDigit b) ∨ buf.length ≤ (fixedPoint decimals (cString buf)).length)
  fpstr : ∀ buf decimals, 0 < decimals → (P.intstrToFpstrInplace buf decimals).1 ≠ 0 →
    cString (P.intstrToFpstrInplace buf decimals).2 = fixedPoint decimals (cString buf)
  fpstrLength : ∀ buf decimals, (P.intstrToFpstrInplace buf decimals).2.length = buf.length
  /-- Joining fails when there is no room for the result and its terminator. -/
  joinFails : ∀ buf pre suf, P.zStr3join buf pre suf = none ↔ buf.length ≤ (ascii pre ++ cString buf ++ ascii suf).length
  join : ∀ buf pre suf joined, 0 ∉ ascii pre → 0 ∉ ascii suf → P.zStr3join buf pre suf = some joined →
    cString joined = ascii pre ++ cString buf ++ ascii suf
  trimming : ∀ buf kept, 46 ∈ cString buf → cString (P.numberInplaceTrimming buf kept) = trimmed kept (cString buf)

namespace Demo

theorem fixedPoint_eq (decimals : Nat) (s : List UInt8) :
    (padded decimals s).take ((padded decimals s).length - decimals) ++ [46] ++
      (padded decimals s).drop ((padded decimals s).length - decimals) = fixedPoint decimals s := by
  rw [List.append_assoc]
  rfl

/-- The numeral on the demo platform. -/
theorem intstrToFpstrInplace_eq (buf : List UInt8) (decimals : Nat) :
    Demo.intstrToFpstrInplace buf decimals =
      if ((cString buf).all fun b => decide (IsDigit b)) = true ∧ (fixedPoint decimals (cString buf)).length < buf.length then
        ((fixedPoint decimals (cString buf)).length, fixedPoint decimals (cString buf) ++
          List.replicate (buf.length - (fixedPoint decimals (cString buf)).length) 0)
      else (0, buf) := by
  change (if ((cString buf).all fun b => decide (IsDigit b)) = true then _ else _) = _
  by_cases hd : ((cString buf).all fun b => decide (IsDigit b)) = true
  · have hfp := fixedPoint_eq decimals (cString buf)
    unfold padded numeral at hfp
    rw [if_pos hd]
    simp only [hfp]
    by_cases hfits : (fixedPoint decimals (cString buf)).length < buf.length
    · rw [if_pos hfits, if_pos ⟨hd, hfits⟩]
    · rw [if_neg hfits, if_neg fun h => hfits h.2]
  · rw [if_neg hd, if_neg (fun h => hd h.1)]

theorem zero_not_mem_fixedPoint {decimals : Nat} {s : List UInt8} (hs : ∀ b ∈ s, IsDigit b) :
    0 ∉ fixedPoint decimals s := by
  have hpadded : 0 ∉ padded decimals s := by
    intro h
    rcases List.mem_append.1 h with hz | hn
    · exact absurd (List.mem_replicate.1 hz).2 (by decide)
    · exact absurd (hs 0 ((List.dropWhile_sublist _).subset hn)) (by decide)
  intro h
  rcases List.mem_append.1 h with h | h
  · exact hpadded (List.mem_of_mem_take h)
  · rcases List.mem_cons.1 h with h | h
    · exact absurd h (by decide)
    · exact hpadded (List.mem_of_mem_drop h)

theorem zero_not_mem_ascii_join {pre suf : String} {buf : List UInt8} (h : 0 ∉ ascii pre) (h' : 0 ∉ ascii suf) :
    0 ∉ ascii pre ++ cString buf ++ ascii suf := by
  simp only [List.mem_append, not_or]
  exact ⟨⟨h, zero_not_mem_cString buf⟩, h'⟩

theorem numberInplaceTrimming_eq (buf : List UInt8) (kept : Nat) :
    cString (Demo.numberInplaceTrimming buf kept) = trimmed kept (cString buf) := by
  have hrest : (cString buf).drop (((cString buf).takeWhile (· ≠ 46)).length + 1) =
      ((cString buf).dropWhile (· ≠ 46)).drop 1 := by
    rw [← List.drop_drop]
    nth_rewrite 2 [← List.takeWhile_append_dropWhile (p := (· ≠ 46)) (l := cString buf)]
    rw [List.drop_left]
  have h0 : 0 ∉ trimmed kept (cString buf) := by
    intro h
    have hmem : ∀ {l : List UInt8}, l.Sublist (cString buf) → 0 ∉ l := fun hl hm => zero_not_mem_cString buf (hl.subset hm)
    rcases List.mem_append.1 h with h | h
    · exact hmem (List.takeWhile_sublist _) h
    · rcases List.mem_cons.1 h with h | h
      · exact absurd h (by decide)
      · exact hmem (((List.take_sublist _ _).trans (List.drop_sublist _ _)).trans (List.dropWhile_sublist _)) h
  unfold Demo.numberInplaceTrimming
  simp only [hrest]
  rw [cString_append_replicate, List.append_assoc, List.singleton_append]
  exact cString_eq_self h0

/-- Joining on the demo platform. -/
theorem zStr3join_eq (buf : List UInt8) (pre suf : String) :
    Demo.zStr3join buf pre suf =
      if (ascii pre ++ cString buf ++ ascii suf).length < buf.length then
        some (ascii pre ++ cString buf ++ ascii suf ++
          List.replicate (buf.length - (ascii pre ++ cString buf ++ ascii suf).length) 0)
      else none := rfl

theorem platform_formats : platform.Formats where
  pageEnd outValLen text pageIdx hlen := by
    have hslice := length_slice_le text (pageIdx * (outValLen - 1)) (outValLen - 1)
    obtain ⟨k, hk⟩ : ∃ k, outValLen - (slice text (pageIdx * (outValLen - 1)) (outValLen - 1)).length = k + 1 :=
      Nat.exists_eq_succ_of_ne_zero (by omega)
    refine ⟨slice text (pageIdx * (outValLen - 1)) (outValLen - 1) ++ List.replicate k 0, ?_, ?_⟩
    · rw [List.length_append, List.length_replicate]
      omega
    · change slice text (pageIdx * (outValLen - 1)) (outValLen - 1) ++ List.replicate (outValLen - _) 0 = _
      rw [hk, List.replicate_succ', List.append_assoc]
  pageCount outValLen text pageIdx h := by
    change (if outValLen - 1 = 0 then 0 else _) = _
    rw [if_neg (by omega)]
    rfl
  page outValLen text pageIdx _ _ := rfl
  fpstrFails buf decimals _ := by
    change (Demo.intstrToFpstrInplace buf decimals).1 = 0 ↔ _
    rw [intstrToFpstrInplace_eq]
    split
    · rename_i h
      have hpos : (fixedPoint decimals (cString buf)).length ≠ 0 := by
        rw [length_fixedPoint]
        omega
      refine iff_of_false hpos ?_
      rintro (⟨b, hb, hdigit⟩ | hlen)
      · exact hdigit (isDigit_of_all h.1 b hb)
      · omega
    · rename_i h
      refine iff_of_true rfl ?_
      by_cases hd : ((cString buf).all fun b => decide (IsDigit b)) = true
      · exact Or.inr (Nat.le_of_not_lt fun hlt => h ⟨hd, hlt⟩)
      · exact Or.inl (by simpa using hd)
  fpstr buf decimals _ h := by
    change cString (Demo.intstrToFpstrInplace buf decimals).2 = _
    change (Demo.intstrToFpstrInplace buf decimals).1 ≠ 0 at h
    rw [intstrToFpstrInplace_eq] at h ⊢
    split at h
    · rename_i hd
      rw [if_pos hd, cString_append_replicate, cString_eq_self (zero_not_mem_fixedPoint (isDigit_of_all hd.1))]
    · exact absurd rfl h
  fpstrLength buf decimals := by
    change (Demo.intstrToFpstrInplace buf decimals).2.length = _
    rw [intstrToFpstrInplace_eq]
    split
    · rename_i h
      simp only [List.length_append, List.length_replicate]
      omega
    · rfl
  joinFails buf pre suf := by
    change Demo.zStr3join buf pre suf = none ↔ _
    rw [zStr3join_eq]
    by_cases hfits : (ascii pre ++ cString buf ++ ascii suf).length < buf.length
    · rw [if_pos hfits]
      exact iff_of_false (Option.some_ne_none _) (Nat.not_le.2 hfits)
    · rw [if_neg hfits]
      exact iff_of_true rfl (Nat.le_of_not_lt hfits)
  join buf pre suf joined hpre hsuf h := by
    change Demo.zStr3join buf pre suf = some joined at h
    rw [zStr3join_eq] at h
    split at h
    · cases h
      rw [cString_append_replicate, cString_eq_self (zero_not_mem_ascii_join hpre hsuf)]
    · cases h
  trimming buf kept _ := numberInplaceTrimming_eq buf kept

end Demo

end LedgerArweave
