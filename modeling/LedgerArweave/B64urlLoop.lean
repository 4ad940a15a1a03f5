import LedgerArweave.B64url
import LedgerArweave.Lib.Program
import Mathlib.Algebra.Group.Nat.Defs

/-!
# Base64url, access by access

`b64url.c` once more, with the buffer and its index as the source has them: every character is looked up and written by
`putChar`, which faults when the index into the character set or the index into the buffer is out of bounds.
-/

namespace LedgerArweave

open Lib

/-- What an access out of bounds runs into. -/
inductive B64Fault where
  | charset | buffer
  deriving DecidableEq, Repr

/-- The buffer and the local variables of `b64url_encode`. -/
structure B64Frame where
  out : List UInt8
  carryCount : Nat
  carryValue : UInt8
  outIdx : Nat
  deriving DecidableEq, Repr

abbrev B64Program : Type → Type := EStateM B64Fault B64Frame

/-- `out[out_idx++] = b64url_charset[idx]` on a buffer of `outlen` bytes. -/
def putChar (outlen idx : Nat) : B64Program Unit := do
  let s ← get
  if idx ≥ 64 then throw .charset
  else if s.outIdx ≥ outlen then throw .buffer
  else modify fun s => { s with out := s.out.set s.outIdx (b64urlCharset.getD idx 0), outIdx := (s.outIdx + 1) % 65536 }

/-- One round of the loop of `b64url_encode`. -/
def encodeByte (outlen : Nat) (c : UInt8) : B64Program Unit := do
  let s ← get
  let shift := 6 - s.carryCount
  let idx := UInt8.ofNat ((s.carryValue.toNat <<< shift) ||| (c.toNat >>> (s.carryCount + 2)))
  modify fun s => { s with
    carryValue := UInt8.ofNat (c.toNat &&& (0xff >>> shift))
    carryCount := s.carryCount + 2 }
  putChar outlen idx.toNat
  let s ← get
  if s.carryCount = 6 then
    putChar outlen s.carryValue.toNat
    modify fun s => { s with carryValue := 0, carryCount := 0 }
  else pure ()

/-- The loop of `b64url_encode`. -/
def encodeBytes (outlen : Nat) : List UInt8 → B64Program Unit
  | [] => pure ()
  | c :: rest => do
    encodeByte outlen c
    encodeBytes outlen rest

/-- The end of `b64url_encode`: bits left over are written as a last character. -/
def encodeRest (outlen : Nat) : B64Program Unit := do
  let s ← get
  if s.carryCount > 0 then putChar outlen (s.carryValue.toNat <<< (6 - s.carryCount)) else pure ()

/-- `b64url_encode` on an input that is not `NULL`: the number it returns. -/
def encodeChecked (outlen : Nat) (input : List UInt8) : B64Program Nat := do
  modify fun s => { s with out := List.replicate outlen 0 }
  if b64urlMinimumBufferSize input.length > outlen then return 0
  else
    modify fun s => { s with carryCount := 0, carryValue := 0, outIdx := 0 }
    encodeBytes outlen input
    encodeRest outlen
    let s ← get
    return s.outIdx

/-! ## No access is out of bounds -/

/-- The frame in which the loop has written what `s` holds: the rest of the buffer is zero. -/
def frameOf (outlen : Nat) (s : B64State) : B64Frame where
  out := s.out ++ List.replicate (outlen - s.out.length) 0
  carryCount := s.carryCount
  carryValue := s.carryValue
  outIdx := s.out.length

/-- What holds behind `i` bytes: the bits left over are fewer than six and their value has no others, and together with the
characters they are the bits of the bytes. -/
structure B64State.Carries (i : Nat) (s : B64State) : Prop where
  count : s.carryCount = 0 ∨ s.carryCount = 2 ∨ s.carryCount = 4
  value : s.carryValue.toNat < 2 ^ s.carryCount
  bits : 6 * s.out.length + s.carryCount = 8 * i

/-- A character is written behind the others when its index is in the character set and there is room. -/
theorem run_putChar {outlen idx : Nat} (n : Nat) (v : UInt8) (out : List UInt8) (hidx : idx < 64) (hroom : out.length < outlen)
    (hlen : outlen < 65536) :
    (putChar outlen idx).run ⟨out ++ List.replicate (outlen - out.length) 0, n, v, out.length⟩ =
      .ok () ⟨(out ++ [b64urlCharset.getD idx 0]) ++ List.replicate (outlen - (out ++ [b64urlCharset.getD idx 0]).length) 0, n, v,
        (out ++ [b64urlCharset.getD idx 0]).length⟩ := by
  have hset : ∀ ch : UInt8, (out ++ List.replicate (outlen - out.length) 0).set out.length ch =
      (out ++ [ch]) ++ List.replicate (outlen - (out ++ [ch]).length) 0 := by
    intro ch
    rw [List.set_append_right _ _ (Nat.le_refl _), Nat.sub_self, show outlen - out.length = outlen - (out.length + 1) + 1 by omega,
      List.replicate_succ, List.set_cons_zero, List.append_assoc, List.singleton_append, List.length_append,
      List.length_singleton]
  have hmod : (out.length + 1) % 65536 = out.length + 1 := Nat.mod_eq_of_lt (by omega)
  unfold putChar
  rw [run_bind_of_ok (run_get _), if_neg (Nat.not_le.2 hidx), if_neg (Nat.not_le.2 hroom), run_modify, hset, hmod,
    List.length_append, List.length_singleton]

/-- The index of the first character of a round. -/
def charIdx (s : B64State) (c : UInt8) : UInt8 :=
  UInt8.ofNat ((s.carryValue.toNat <<< (6 - s.carryCount)) ||| (c.toNat >>> (s.carryCount + 2)))

/-- The value of the bits a round leaves over. -/
def leftOver (s : B64State) (c : UInt8) : UInt8 := UInt8.ofNat (c.toNat &&& (0xff >>> (6 - s.carryCount)))

/-- A round that completes a second character. -/
theorem b64urlByte_of_full {s : B64State} (c : UInt8) (h6 : s.carryCount + 2 = 6) :
    b64urlByte s c = ⟨0, 0, s.out ++ [b64urlChar (charIdx s c)] ++ [b64urlChar (leftOver s c)]⟩ := if_pos h6

/-- A round that leaves bits over. -/
theorem b64urlByte_of_not_full {s : B64State} (c : UInt8) (h6 : s.carryCount + 2 ≠ 6) :
    b64urlByte s c = ⟨s.carryCount + 2, leftOver s c, s.out ++ [b64urlChar (charIdx s c)]⟩ := if_neg h6

/-- The index of the first character is in the character set. -/
theorem B64State.Carries.charIdx_lt {i : Nat} {s : B64State} (h : s.Carries i) (c : UInt8) : (charIdx s c).toNat < 64 := by
  have hv := h.value
  have hc := c.toNat_lt
  have hidx : (s.carryValue.toNat <<< (6 - s.carryCount)) ||| (c.toNat >>> (s.carryCount + 2)) < 2 ^ 6 := by
    refine Nat.or_lt_two_pow ?_ ?_
    · rw [Nat.shiftLeft_eq]
      rcases h.count with h0 | h0 | h0 <;> rw [h0] at hv ⊢ <;> omega
    · rw [Nat.shiftRight_eq_div_pow]
      rcases h.count with h0 | h0 | h0 <;> rw [h0] <;> omega
  rw [charIdx, toNat_ofNat_of_lt (by omega)]
  exact hidx

/-- The bits left over have no more value than they can. -/
theorem B64State.Carries.leftOver_lt {i : Nat} {s : B64State} (h : s.Carries i) (c : UInt8) :
    (leftOver s c).toNat < 2 ^ (s.carryCount + 2) := by
  have hand := fun n => Nat.and_two_pow_sub_one_eq_mod c.toNat n
  have hmod : c.toNat &&& (0xff >>> (6 - s.carryCount)) = c.toNat % 2 ^ (s.carryCount + 2) := by
    rcases h.count with h0 | h0 | h0 <;> rw [h0]
    · exact hand 2
    · exact hand 4
    · exact hand 6
  have hlt : c.toNat % 2 ^ (s.carryCount + 2) < 2 ^ (s.carryCount + 2) := Nat.mod_lt _ (Nat.two_pow_pos _)
  have hc := c.toNat_lt
  rw [leftOver, hmod, toNat_ofNat_of_lt (Nat.lt_of_le_of_lt (Nat.mod_le _ _) hc)]
  exact hlt

/-- A round keeps what the loop carries. -/
theorem B64State.Carries.byte {i : Nat} {s : B64State} (h : s.Carries i) (c : UInt8) : (b64urlByte s c).Carries (i + 1) := by
  have hbits := h.bits
  by_cases h6 : s.carryCount + 2 = 6
  · rw [b64urlByte_of_full c h6]
    refine ⟨Or.inl rfl, Nat.one_pos, ?_⟩
    simp only [List.length_append, List.length_singleton]
    omega
  · rw [b64urlByte_of_not_full c h6]
    refine ⟨?_, h.leftOver_lt c, ?_⟩
    · have hcount := h.count
      simp only
      omega
    · simp only [List.length_append, List.length_singleton]
      omega

/-- A round of the loop faults nowhere, and it writes what the model of the round says. -/
theorem run_encodeByte {outlen i : Nat} {s : B64State} (h : s.Carries i) (c : UInt8)
    (hroom : (b64urlByte s c).out.length ≤ outlen) (hlen : outlen < 65536) :
    (encodeByte outlen c).run (frameOf outlen s) = .ok () (frameOf outlen (b64urlByte s c)) := by
  have hput := fun n v (hr : s.out.length < outlen) => run_putChar n v s.out (h.charIdx_lt c) hr hlen
  unfold encodeByte
  rw [run_bind_of_ok (run_get _), run_bind_of_ok (run_modify _ _)]
  by_cases h6 : s.carryCount + 2 = 6
  · rw [b64urlByte_of_full c h6] at hroom ⊢
    simp only [List.length_append, List.length_singleton] at hroom
    have hover := h.leftOver_lt c
    rw [h6] at hover
    have hfirst := hput (s.carryCount + 2) (leftOver s c) (by omega)
    have hroom' : (s.out ++ [b64urlChar (charIdx s c)]).length < outlen := by
      rw [List.length_append, List.length_singleton]
      omega
    have hsecond := run_putChar (s.carryCount + 2) (leftOver s c) (s.out ++ [b64urlChar (charIdx s c)]) hover hroom' hlen
    refine (run_bind_of_ok hfirst _).trans ?_
    rw [run_bind_of_ok (run_get _)]
    simp only [h6, if_true]
    rw [h6] at hsecond
    refine (run_bind_of_ok hsecond _).trans ?_
    rfl
  · rw [b64urlByte_of_not_full c h6] at hroom ⊢
    simp only [List.length_append, List.length_singleton] at hroom
    have hfirst := hput (s.carryCount + 2) (leftOver s c) (by omega)
    refine (run_bind_of_ok hfirst _).trans ?_
    rw [run_bind_of_ok (run_get _)]
    simp only [h6, if_false]
    rfl

/-- The loop faults nowhere. -/
theorem run_encodeBytes {outlen : Nat} (hlen : outlen < 65536) : ∀ (l : List UInt8) (i : Nat) (s : B64State), s.Carries i →
    8 * (i + l.length) ≤ 6 * outlen →
    (encodeBytes outlen l).run (frameOf outlen s) = .ok () (frameOf outlen (l.foldl b64urlByte s)) ∧
      (l.foldl b64urlByte s).Carries (i + l.length) := by
  intro l
  induction l with
  | nil => exact fun i s h _ => ⟨rfl, h⟩
  | cons c l ih =>
    intro i s h hroom
    rw [List.length_cons] at hroom ⊢
    have hbyte := h.byte c
    have hbits := hbyte.bits
    obtain ⟨hrun, hcarries⟩ := ih (i + 1) _ hbyte (by omega)
    refine ⟨?_, by rwa [Nat.add_right_comm, Nat.add_assoc] at hcarries⟩
    rw [encodeBytes, run_bind_of_ok (run_encodeByte h c (by omega) hlen), hrun, List.foldl_cons]

/-- What is left over behind the loop is written as a last character. -/
theorem run_encodeRest {outlen i : Nat} {s : B64State} (h : s.Carries i) (hlen : outlen < 65536) (hroom : 8 * i ≤ 6 * outlen) :
    let text := if s.carryCount > 0 then s.out ++ [b64urlChar (UInt8.ofNat (s.carryValue.toNat <<< (6 - s.carryCount)))] else s.out
    (encodeRest outlen).run (frameOf outlen s) = .ok ()
      { frameOf outlen s with out := text ++ List.replicate (outlen - text.length) 0, outIdx := text.length } := by
  have hbits := h.bits
  unfold encodeRest
  rw [run_bind_of_ok (run_get _)]
  by_cases hover : s.carryCount > 0
  · have hlast : s.carryValue.toNat <<< (6 - s.carryCount) < 64 := by
      have hv := h.value
      rw [Nat.shiftLeft_eq]
      rcases h.count with h0 | h0 | h0 <;> rw [h0] at hv ⊢ <;> omega
    have hchar : b64urlCharset.getD (s.carryValue.toNat <<< (6 - s.carryCount)) 0 =
        b64urlChar (UInt8.ofNat (s.carryValue.toNat <<< (6 - s.carryCount))) := by
      rw [b64urlChar, toNat_ofNat_of_lt (by omega)]
    rw [if_pos (show (frameOf outlen s).carryCount > 0 from hover), if_pos hover, ← hchar]
    exact run_putChar _ _ _ hlast (by omega) hlen
  · rw [if_neg (show ¬(frameOf outlen s).carryCount > 0 from hover), if_neg hover]
    rfl

/-- The room asked for, in one formula. -/
theorem b64urlMinimumBufferSize_eq (inlen : Nat) : b64urlMinimumBufferSize inlen = inlen + (inlen + 2) / 3 := by
  unfold b64urlMinimumBufferSize
  split <;> simp only <;> omega

/-- `b64url_encode` faults nowhere: it returns what the model of it does, and leaves that in the buffer. -/
theorem run_encodeChecked {outlen : Nat} (hlen : outlen < 65536) (input : List UInt8) (s : B64Frame) :
    ∃ r s', (encodeChecked outlen input).run s = .ok r s' ∧
      (r, s'.out) = if b64urlMinimumBufferSize input.length > outlen then (0, List.replicate outlen 0)
        else ((b64urlText input).length, b64urlText input ++ List.replicate (outlen - (b64urlText input).length) 0) := by
  unfold encodeChecked
  by_cases hroom : b64urlMinimumBufferSize input.length > outlen
  · refine ⟨0, { s with out := List.replicate outlen 0 }, ?_, by rw [if_pos hroom]⟩
    rw [run_bind_of_ok (run_modify _ _), if_pos hroom]
    rfl
  · have hbits : 8 * input.length ≤ 6 * outlen := by
      rw [b64urlMinimumBufferSize_eq] at hroom
      omega
    have hstart : (⟨0, 0, []⟩ : B64State).Carries 0 := ⟨Or.inl rfl, Nat.one_pos, rfl⟩
    obtain ⟨hloop, hcarries⟩ := run_encodeBytes hlen input 0 _ hstart (by omega)
    rw [Nat.zero_add] at hcarries
    have hlast := run_encodeRest hcarries hlen hbits
    refine ⟨(b64urlText input).length, { frameOf outlen (input.foldl b64urlByte ⟨0, 0, []⟩) with
      out := b64urlText input ++ List.replicate (outlen - (b64urlText input).length) 0, outIdx := (b64urlText input).length },
      ?_, (if_neg hroom).symm⟩
    rw [run_bind_of_ok (run_modify _ _), if_neg hroom]
    refine (run_bind_of_ok (run_modify _ _) _).trans ?_
    refine (run_bind_of_ok hloop _).trans ?_
    refine (run_bind_of_ok hlast _).trans ?_
    rfl

end LedgerArweave
