import LedgerArweave.B64urlLoop
import LedgerArweave.Lib.Bits

/-!
# Base64url without padding

What `b64url_encode` computes is the base64url encoding of RFC 4648 without padding: characters whose six-bit values, put in a
row, are the bits of the input and fewer than six zeros. There is one such text for every input.
-/

namespace LedgerArweave

open Lib

/-- The alphabet of base64url: the letters, the digits, minus and underscore. -/
def base64urlAlphabet (value : Nat) : UInt8 :=
  if value < 26 then UInt8.ofNat (65 + value)
  else if value < 52 then UInt8.ofNat (97 + (value - 26))
  else if value < 62 then UInt8.ofNat (48 + (value - 52))
  else if value = 62 then 45
  else 95

/-- The text decodes to the input, with no bits left over but zeros: its characters stand for values below 64 whose bits are the
bits of the input, followed by fewer than six zeros. -/
def Base64urlDecodes (text input : List UInt8) : Prop :=
  ∃ values : List Nat, (∀ v ∈ values, v < 64) ∧ text = values.map base64urlAlphabet ∧
    ∃ k < 6, values.flatMap (bits 6) = byteBits input ++ List.replicate k false

namespace Base64Aux

/-- The character set of the source is the alphabet. -/
theorem b64urlChar_eq_alphabet {i : Nat} (hi : i < 64) : b64urlChar (UInt8.ofNat i) = base64urlAlphabet i := by
  have hall : ((List.range 64).all fun i => b64urlChar (UInt8.ofNat i) == base64urlAlphabet i) = true := by decide
  exact beq_iff_eq.1 (List.all_eq_true.1 hall i (List.mem_range.2 hi))

theorem b64urlChars_eq_alphabet {values : List Nat} (h : ∀ v ∈ values, v < 64) :
    values.map base64urlAlphabet = b64urlChars values :=
  List.map_congr_left fun v hv => (b64urlChar_eq_alphabet (h v hv)).symm

/-- The text that decodes to an input is the one `b64url_encode` writes. -/
theorem decodes_iff (text input : List UInt8) : Base64urlDecodes text input ↔ text = b64urlText input := by
  constructor
  · rintro ⟨values, hv, rfl, k, hk, hbits⟩
    rw [eq_sextets_of_bits hv hk hbits, b64urlText_eq, b64urlChars_eq_alphabet (sextets_lt input)]
  · rintro rfl
    obtain ⟨k, hk, hbits⟩ := flatMap_bits_sextets input
    exact ⟨sextets input, sextets_lt input, by rw [b64urlText_eq, b64urlChars_eq_alphabet (sextets_lt input)], k, hk, hbits⟩

/-- Four characters for every three bytes, rounded up. -/
theorem length_b64urlText_eq (input : List UInt8) : (b64urlText input).length = (4 * input.length + 2) / 3 := by
  rw [length_b64urlText, b64urlMinimumBufferSize_eq]
  omega

end Base64Aux

open Base64Aux

/-- For every input and every buffer: `b64url_encode` accesses neither the character set nor the buffer out of
bounds; if the buffer has room for `inlen` and a third of it bytes, it returns the length of the base64url encoding without
padding, the one text that decodes to the input, and the buffer holds that text and zeros behind it; otherwise it returns 0 and
the buffer is all zero. -/
theorem b64urlEncode_spec (outlen : Nat) (hout : outlen < 65536) (mem : Mem) (p inlen : Nat)
    (hmem : p + inlen ≤ mem.length) (s : B64Frame) :
    ∃ r s', (encodeChecked outlen (slice mem p inlen)).run s = .ok r s' ∧
      b64urlEncode outlen mem ⟨inlen, some p⟩ = some (r, s'.out) ∧
      (inlen + (inlen + 2) / 3 ≤ outlen → r = (4 * inlen + 2) / 3 ∧
        ∃ text, text.length = r ∧ s'.out = text ++ List.replicate (outlen - r) 0 ∧
          ∀ other, Base64urlDecodes other (slice mem p inlen) ↔ other = text) ∧
      (¬inlen + (inlen + 2) / 3 ≤ outlen → r = 0 ∧ s'.out = List.replicate outlen 0) := by
  have hlen : (slice mem p inlen).length = inlen := length_slice hmem
  have htext := length_b64urlText_eq (slice mem p inlen)
  obtain ⟨r, s', hrun, hres⟩ := run_encodeChecked hout (slice mem p inlen) s
  rw [hlen] at hres htext
  refine ⟨r, s', hrun, ?_, ?_, ?_⟩
  · rw [hres]
    unfold b64urlEncode
    split
    · rename_i hp
      cases hp
    · simp only [ParserElement.bytes]
      split <;> rfl
  · intro hroom
    rw [if_neg (by rw [b64urlMinimumBufferSize_eq]; omega), Prod.mk.injEq] at hres
    obtain ⟨rfl, hbuf⟩ := hres
    exact ⟨htext, b64urlText (slice mem p inlen), rfl, hbuf, fun other => decodes_iff other _⟩
  · intro hroom
    rw [if_pos (by rw [b64urlMinimumBufferSize_eq]; omega), Prod.mk.injEq] at hres
    exact hres

/-- Four bytes and a buffer of seven: there is room for six characters. -/
theorem b64urlEncode_spec_four_bytes :
    ∃ r s', (encodeChecked 7 (slice [1, 3, 5, 7] 0 4)).run ⟨[], 0, 0, 0⟩ = .ok r s' ∧ r = 6 := by
  obtain ⟨r, s', hrun, -, hroom, -⟩ := b64urlEncode_spec 7 (by decide) [1, 3, 5, 7] 0 4 (by decide) ⟨[], 0, 0, 0⟩
  exact ⟨r, s', hrun, (hroom (by decide)).1⟩

end LedgerArweave
