import LedgerArweave.Sha512
import LedgerArweave.Lib.Sha384
import Mathlib.Tactic.Ring

/-!
# The hash of the host build is SHA-384

`sha512.c` keeps the registers where they are and renames them, computes `Ch` and `Maj` its own way, takes its constants from
tables, and buffers what does not fill a block. All of that computes the function of the standard, on every message and however
the message is cut.
-/

namespace LedgerArweave

open Lib

namespace Sha512

/-! ## Words and bytes -/

/-- Bytes put side by side, as a number. -/
theorem or_shift (a : Nat) (b : UInt8) (k : Nat) : a * 2 ^ (k + 8) ||| b.toNat * 2 ^ k = (a * 256 + b.toNat) * 2 ^ k := by
  have hb : b.toNat * 2 ^ k < 2 ^ (k + 8) := by
    rw [Nat.pow_add, Nat.mul_comm]
    exact Nat.mul_lt_mul_of_pos_left b.toNat_lt (Nat.two_pow_pos k)
  rw [Nat.mul_comm a, ← Nat.two_pow_add_eq_or_of_lt hb, Nat.pow_add]
  ring

/-- A byte shifted to its place in a word. -/
theorem toNat_shiftLeft (b : UInt8) {n : UInt64} {k : Nat} (hn : n.toNat = k) (hk : k ≤ 56) :
    (b.toUInt64 <<< n).toNat = b.toNat * 2 ^ k := by
  have hlt : b.toNat * 2 ^ k < 2 ^ 64 := by
    calc b.toNat * 2 ^ k < 2 ^ 8 * 2 ^ k := Nat.mul_lt_mul_of_pos_right b.toNat_lt (Nat.two_pow_pos k)
      _ = 2 ^ (8 + k) := (Nat.pow_add 2 8 k).symm
      _ ≤ 2 ^ 64 := Nat.pow_le_pow_right (by decide) (by omega)
  rw [UInt64.toNat_shiftLeft, hn, UInt8.toNat_toUInt64, Nat.mod_eq_of_lt (a := k) (by omega), Nat.shiftLeft_eq,
    Nat.mod_eq_of_lt hlt]

/-- `GET_UINT64_BE` reads the word that eight bytes are. -/
theorem getUint64Be_eq {b : List UInt8} {i : Nat} (h : i + 8 ≤ b.length) :
    getUint64Be b i = Sha384.wordOf ((b.drop i).take 8) := by
  obtain ⟨b0, b1, b2, b3, b4, b5, b6, b7, r, hr⟩ :
      ∃ b0 b1 b2 b3 b4 b5 b6 b7 r, b.drop i = b0 :: b1 :: b2 :: b3 :: b4 :: b5 :: b6 :: b7 :: r := by
    have hlen : 8 ≤ (b.drop i).length := by rw [List.length_drop]; omega
    match b.drop i, hlen with
    | b0 :: b1 :: b2 :: b3 :: b4 :: b5 :: b6 :: b7 :: r, _ => exact ⟨_, _, _, _, _, _, _, _, _, rfl⟩
  have hget : ∀ j, b.getD (i + j) 0 = (b.drop i).getD j 0 := by
    intro j
    rw [List.getD_eq_getElem?_getD, List.getD_eq_getElem?_getD, List.getElem?_drop]
  have h0 := hget 0
  rw [Nat.add_zero] at h0
  rw [getUint64Be, h0, hget 1, hget 2, hget 3, hget 4, hget 5, hget 6, hget 7, hr]
  apply UInt64.toNat.inj
  have hor : ∀ {x y : UInt64} {a : Nat} {b : UInt8} (k : Nat), x.toNat = a * 2 ^ (k + 8) → y.toNat = b.toNat * 2 ^ k →
      (x ||| y).toNat = (a * 256 + b.toNat) * 2 ^ k := by
    intro x y a b k hx hy
    rw [UInt64.toNat_or, hx, hy, or_shift]
  have e0 := toNat_shiftLeft b0 (n := 56) rfl (by decide)
  have e1 := hor 48 e0 (toNat_shiftLeft b1 (n := 48) rfl (by decide))
  have e2 := hor 40 e1 (toNat_shiftLeft b2 (n := 40) rfl (by decide))
  have e3 := hor 32 e2 (toNat_shiftLeft b3 (n := 32) rfl (by decide))
  have e4 := hor 24 e3 (toNat_shiftLeft b4 (n := 24) rfl (by decide))
  have e5 := hor 16 e4 (toNat_shiftLeft b5 (n := 16) rfl (by decide))
  have e6 := hor 8 e5 (toNat_shiftLeft b6 (n := 8) rfl (by decide))
  have e7 := hor 0 e6 (y := b7.toUInt64) (b := b7) (by rw [Nat.pow_zero, Nat.mul_one, UInt8.toNat_toUInt64])
  rw [Nat.pow_zero, Nat.mul_one] at e7
  have hbound : ofBe [b0, b1, b2, b3, b4, b5, b6, b7] < 2 ^ 64 :=
    Nat.lt_of_lt_of_le (ofBe_lt _) (show 256 ^ 8 ≤ 2 ^ 64 by decide)
  have hword : ofBe [b0, b1, b2, b3, b4, b5, b6, b7] =
      ((((((b0.toNat * 256 + b1.toNat) * 256 + b2.toNat) * 256 + b3.toNat) * 256 + b4.toNat) * 256 + b5.toNat) * 256 +
        b6.toNat) * 256 + b7.toNat := by
    simp only [ofBe, List.reverse_cons, List.reverse_nil, List.nil_append, List.cons_append, List.map_cons, List.map_nil,
      Nat.ofDigits_cons, Nat.ofDigits_nil]
    ring
  rw [← hword] at e7
  simp only [List.getD_cons_zero, List.getD_cons_succ, List.take_succ_cons, List.take_zero]
  rw [e7, Sha384.wordOf, UInt64.toNat_ofNat', Nat.mod_eq_of_lt hbound]

/-- `PUT_UINT64_BE` writes the bytes of a word. -/
theorem putUint64Be_eq (n : UInt64) : putUint64Be n = Sha384.bytesOf n := by
  have hbyte : ∀ {m : UInt64} (k : Nat), m.toNat = k → k < 64 → (n >>> m).toUInt8 = UInt8.ofNat (n.toNat / 2 ^ k) := by
    intro m k hk hlt
    apply UInt8.toNat.inj
    rw [UInt64.toNat_toUInt8, UInt64.toNat_shiftRight, hk, Nat.mod_eq_of_lt hlt, Nat.shiftRight_eq_div_pow, UInt8.toNat_ofNat']
  have h0 : n.toUInt8 = UInt8.ofNat n.toNat := by
    apply UInt8.toNat.inj
    rw [UInt64.toNat_toUInt8, UInt8.toNat_ofNat']
  simp only [Sha384.bytesOf, toBe, List.nil_append, List.cons_append, Nat.div_div_eq_div_mul, Nat.reduceMul]
  rw [putUint64Be, h0, hbyte 56 rfl (by decide), hbyte 48 rfl (by decide), hbyte 40 rfl (by decide), hbyte 32 rfl (by decide),
    hbyte 24 rfl (by decide), hbyte 16 rfl (by decide), hbyte 8 rfl (by decide)]
  rfl

/-! ## A block -/

/-- `F0` is the majority of its arguments. -/
theorem f0_eq (x y z : UInt64) : f0 x y z = Sha384.maj x y z := by
  apply UInt64.toBitVec_inj.1
  apply BitVec.eq_of_getLsbD_eq
  intro i hi
  simp only [f0, Sha384.maj, UInt64.toBitVec_or, UInt64.toBitVec_and, UInt64.toBitVec_xor, BitVec.getLsbD_or, BitVec.getLsbD_and,
    BitVec.getLsbD_xor]
  cases x.toBitVec.getLsbD i <;> cases y.toBitVec.getLsbD i <;> cases z.toBitVec.getLsbD i <;> rfl

/-- `F1` is the choice by its first argument. -/
theorem f1_eq (x y z : UInt64) : f1 x y z = Sha384.ch x y z := by
  apply UInt64.toBitVec_inj.1
  apply BitVec.eq_of_getLsbD_eq
  intro i hi
  simp only [f1, Sha384.ch, UInt64.toBitVec_and, UInt64.toBitVec_xor, UInt64.toBitVec_not, BitVec.getLsbD_and,
    BitVec.getLsbD_xor, BitVec.getLsbD_not, hi, decide_true, Bool.true_and]
  cases x.toBitVec.getLsbD i <;> cases y.toBitVec.getLsbD i <;> cases z.toBitVec.getLsbD i <;> rfl

/-- The registers as the working variables of the standard. -/
def Words.vars (r : Words) : Sha384.Vars := ⟨r.a, r.b, r.c, r.d, r.e, r.f, r.g, r.h⟩

/-- Eight rounds bring every register back to its place. -/
theorem eightRounds_vars (w : List UInt64) (r : Words) (i : Nat) :
    (eightRounds w r i).vars =
      (List.range 8).foldl (fun v n => Sha384.round (k.getD (i + n) 0) (w.getD (i + n) 0) v) r.vars := by
  have h : ∀ a b c d e f g h x k, p a b c d e f g h x k =
      (d + (h + Sha384.bigSigma1 e + Sha384.ch e f g + k + x),
        h + Sha384.bigSigma1 e + Sha384.ch e f g + k + x + (Sha384.bigSigma0 a + Sha384.maj a b c)) := by
    intro a b c d e f g h x k
    rw [p, f0_eq, f1_eq]
    rfl
  simp only [eightRounds, h]
  rfl

/-- The working variables after the eighty rounds: the rounds of the standard, one after the other. -/
theorem rounds_vars (w : List UInt64) (r : Words) :
    (rounds w r).vars = (List.range 80).foldl (fun v t => Sha384.round (k.getD t 0) (w.getD t 0) v) r.vars := by
  have hrun : ∀ n : Nat, ((List.range n).foldl (fun r m => eightRounds w r (8 * m)) r).vars =
      (List.range (8 * n)).foldl (fun v t => Sha384.round (k.getD t 0) (w.getD t 0) v) r.vars := by
    intro n
    induction n with
    | zero => rfl
    | succ n ih =>
      have hrange : List.range (8 * (n + 1)) = List.range (8 * n) ++ (List.range 8).map (8 * n + ·) := List.range_add
      rw [List.range_succ, List.foldl_append, List.foldl_cons, List.foldl_nil, eightRounds_vars, ih, hrange, List.foldl_append,
        List.foldl_map]
  exact hrun 10

/-- The array `W` is the message schedule. -/
theorem getD_extendW (block : Nat → UInt64) (n i : Nat) (hi : 16 ≤ i) (w : List UInt64) (hlen : w.length = i)
    (hw : ∀ t, t < i → w.getD t 0 = Sha384.schedule block t) (t : Nat) (ht : t < i + n) :
    (extendW n i w).getD t 0 = Sha384.schedule block t := by
  induction n generalizing i w with
  | zero => exact hw t ht
  | succ n ih =>
    rw [extendW]
    refine ih (i + 1) (by omega) _ (by rw [List.length_append, hlen, List.length_singleton]) ?_ (by omega)
    intro t ht
    by_cases hold : t < i
    · rw [List.getD_append _ _ _ _ (by omega)]
      exact hw t hold
    · obtain rfl : t = i := by omega
      rw [List.getD_append_right _ _ _ _ (by omega), hlen, Nat.sub_self, List.getD_cons_zero, hw _ (by omega), hw _ (by omega),
        hw _ (by omega), hw _ (by omega), Sha384.schedule.eq_1 block t, if_neg (by omega)]
      rfl

/-- The message schedule. -/
theorem getD_fillW {data : List UInt8} (h : 128 ≤ data.length) {t : Nat} (ht : t < 80) :
    (fillW data).getD t 0 = Sha384.schedule (Sha384.blockWord (data.take 128)) t := by
  refine getD_extendW _ 64 16 (by decide) _ (by simp) ?_ t ht
  intro t ht
  rw [Sha384.schedule.eq_1, if_pos ht, List.getD_eq_getElem?_getD, List.getElem?_map, List.getElem?_range ht, Option.map_some,
    Option.getD_some, getUint64Be_eq (by omega), Sha384.blockWord, List.drop_take, List.take_take, Nat.min_eq_left (by omega)]

/-! ## The tables -/

/-- The constants of the rounds are 64 bits of the cube roots of the first eighty primes. -/
theorem k_isRootTable : isRootTable (2 ^ 64) 3 410 0 (k.map UInt64.toNat) = true := by decide +kernel

/-- So they are the constants of the standard. -/
theorem k_eq {t : Nat} (ht : t < 80) : k.getD t 0 = Sha384.roundConstant t := by
  have hlen : k.length = 80 := rfl
  have hget : (k.map UInt64.toNat)[t]? = some (k.getD t 0).toNat := by
    rw [List.getElem?_map, List.getElem?_eq_getElem (hlen ▸ ht), Option.map_some, List.getD_eq_getElem _ _ (hlen ▸ ht)]
  have hroot := getElem?_of_isRootTable (by decide) k_isRootTable hget
  rw [Nat.zero_add] at hroot
  rw [Sha384.roundConstant, ← hroot, UInt64.ofNat_toNat]

/-- The initial state is 64 bits of the square roots of the ninth to the sixteenth prime. -/
theorem starts_isRootTable : isRootTable (2 ^ 64) 2 54 8 ((starts init).state.vars.words.map UInt64.toNat) = true := by
  decide +kernel

/-- So it is the initial state of SHA-384. -/
theorem starts_vars (ctx : Context) : (starts ctx).state.vars = Sha384.initial := by
  have hget : ∀ {i : Nat} {w : UInt64}, (starts init).state.vars.words[i]? = some w → w = Sha384.initialWord i := by
    intro i w hw
    have hroot := getElem?_of_isRootTable (by decide) starts_isRootTable (t := i) (w := w.toNat) (by
      rw [List.getElem?_map, hw, Option.map_some])
    rw [Sha384.initialWord, ← hroot, UInt64.ofNat_toNat]
  rw [Sha384.initial, ← hget (i := 0) rfl, ← hget (i := 1) rfl, ← hget (i := 2) rfl, ← hget (i := 3) rfl, ← hget (i := 4) rfl,
    ← hget (i := 5) rfl, ← hget (i := 6) rfl, ← hget (i := 7) rfl]
  rfl

/-- A block is compressed as the standard says. -/
theorem process_eq (ctx : Context) (data : List UInt8) (h : 128 ≤ data.length) :
    ∃ s : Words, process ctx data = some { ctx with state := s } ∧ s.vars = Sha384.compress ctx.state.vars (data.take 128) := by
  refine ⟨_, if_neg (Nat.not_lt.2 h), ?_⟩
  have hrounds : (rounds (fillW data) ctx.state).vars =
      (List.range 80).foldl (fun v t => Sha384.round (Sha384.roundConstant t)
        (Sha384.schedule (Sha384.blockWord (data.take 128)) t) v) ctx.state.vars := by
    rw [rounds_vars]
    refine List.foldl_ext _ _ _ fun v t ht => ?_
    rw [k_eq (List.mem_range.1 ht), getD_fillW h (List.mem_range.1 ht)]
  rw [Sha384.compress, ← hrounds]
  rfl

/-! ## A message -/

/-- The context is that of a stream that took `len` bytes. -/
structure Follows (ctx : Context) (len : Nat) (st : Stream Sha384.Vars UInt8 128) : Prop where
  total : ctx.total0.toNat + 2 ^ 64 * ctx.total1.toNat = len
  state : ctx.state.vars = st.state
  pending : ctx.buffer.1.take st.pending.length = st.pending
  left : st.pending.length = len % 128

/-- The counter of the bytes, with its carry. -/
theorem total_add {ctx : Context} {len n : Nat} (h : ctx.total0.toNat + 2 ^ 64 * ctx.total1.toNat = len) (hn : n < 2 ^ 64)
    (hlen : len + n < 2 ^ 128) :
    (ctx.total0 + UInt64.ofNat n).toNat +
      2 ^ 64 * (if ctx.total0 + UInt64.ofNat n < UInt64.ofNat n then ctx.total1 + 1 else ctx.total1).toNat = len + n := by
  have h0 := ctx.total0.toNat_lt
  have h1 := ctx.total1.toNat_lt
  have hlow : (ctx.total0 + UInt64.ofNat n).toNat = (ctx.total0.toNat + n) % 2 ^ 64 := by
    rw [UInt64.toNat_add, UInt64.toNat_ofNat', Nat.mod_eq_of_lt hn]
  have hcarry : ctx.total0 + UInt64.ofNat n < UInt64.ofNat n ↔ 2 ^ 64 ≤ ctx.total0.toNat + n := by
    rw [UInt64.lt_iff_toNat_lt, hlow, UInt64.toNat_ofNat', Nat.mod_eq_of_lt hn]
    omega
  by_cases hc : 2 ^ 64 ≤ ctx.total0.toNat + n
  · have hhigh : (ctx.total1 + 1).toNat = ctx.total1.toNat + 1 := by
      rw [UInt64.toNat_add]
      exact Nat.mod_eq_of_lt (by rw [show (1 : UInt64).toNat = 1 from rfl]; omega)
    rw [if_pos (hcarry.2 hc), hlow, hhigh]
    omega
  · rw [if_neg (fun hlt => hc (hcarry.1 hlt)), hlow]
    omega

/-- A copy that fits the buffer is written there. -/
theorem memcpyBuffer_eq (buffer : ByteArr 128) (src : List UInt8) {o n : Nat} (ho : o + n ≤ 128) (hn : n ≤ src.length) :
    ∃ b : ByteArr 128, memcpyBuffer buffer o src n = some b ∧ b.1 = patch buffer.1 o (src.take n) :=
  ⟨_, dif_pos ⟨ho, hn⟩, rfl⟩

/-- The loop over the full blocks of the input. -/
theorem updateBlocks_eq {fuel : Nat} (ctx : Context) (input : List UInt8) (ilen : Nat) (hfuel : ilen / 128 ≤ fuel)
    (hlen : ilen ≤ input.length) :
    ∃ s : Words,
      updateBlocks fuel ctx input ilen = some ({ ctx with state := s }, input.drop (128 * (ilen / 128)), ilen % 128) ∧
        s.vars = absorb 128 Sha384.compress ctx.state.vars (input.take ilen) := by
  induction fuel generalizing ctx input ilen with
  | zero =>
    have hlt : ilen < 128 := by omega
    refine ⟨ctx.state, ?_, ?_⟩
    · rw [updateBlocks, if_pos hlt, Nat.div_eq_of_lt hlt, Nat.mul_zero, List.drop_zero, Nat.mod_eq_of_lt hlt]
    · rw [absorb_of_lt _ _ (by rw [List.length_take]; omega)]
  | succ fuel ih =>
    by_cases hlt : ilen < 128
    · refine ⟨ctx.state, ?_, ?_⟩
      · rw [updateBlocks, if_pos hlt, Nat.div_eq_of_lt hlt, Nat.mul_zero, List.drop_zero, Nat.mod_eq_of_lt hlt]
      · rw [absorb_of_lt _ _ (by rw [List.length_take]; omega)]
    · obtain ⟨s, hprocess, hs⟩ := process_eq ctx input (by omega)
      obtain ⟨s', hrun, hs'⟩ := ih { ctx with state := s } (input.drop 128) (ilen - 128) (by omega)
        (by rw [List.length_drop]; omega)
      have hsplit : input.take ilen = input.take 128 ++ (input.drop 128).take (ilen - 128) := by
        rw [← List.take_add, Nat.add_sub_cancel' (Nat.le_of_not_lt hlt)]
      refine ⟨s', ?_, ?_⟩
      · rw [updateBlocks, if_neg hlt]
        simp only [hprocess, Option.bind_eq_bind, Option.bind_some, hrun, List.drop_drop]
        rw [show 128 + 128 * ((ilen - 128) / 128) = 128 * (ilen / 128) by omega,
          show (ilen - 128) % 128 = ilen % 128 by omega]
      · rw [hs', hs, hsplit, absorb_block_append _ (by decide) (by rw [List.length_take]; omega)]

/-- Where nothing waits, the end of an update pushes its input into an empty stream. -/
theorem updateRest_of_empty (ctx : Context) (input : List UInt8) (ilen : Nat) (hlen : ilen ≤ input.length) :
    ∃ ctx', updateRest ctx input ilen 0 = some ctx' ∧ ctx'.total0 = ctx.total0 ∧ ctx'.total1 = ctx.total1 ∧
      ctx'.state.vars = absorb 128 Sha384.compress ctx.state.vars (input.take ilen) ∧
      ctx'.buffer.1.take (ilen % 128) = leftover 128 (input.take ilen) := by
  obtain ⟨s, hblocks, hs⟩ := updateBlocks_eq ctx input ilen (Nat.div_le_self ilen 128) hlen
  have htake : (input.take ilen).length = ilen := List.length_take_of_le hlen
  by_cases hzero : ilen % 128 = 0
  · refine ⟨{ ctx with state := s }, ?_, rfl, rfl, hs, ?_⟩
    · simp only [updateRest, hblocks, Option.bind_eq_bind, Option.bind_some, hzero, Nat.lt_irrefl, if_false, Option.pure_def]
    · have hleft : (leftover 128 (input.take ilen)).length = 0 := by rw [length_leftover, htake, hzero]
      rw [hzero, List.take_zero, List.length_eq_zero_iff.1 hleft]
  · have hmod := Nat.mod_lt ilen (show 0 < 128 by decide)
    obtain ⟨b, hcopy, hb⟩ := memcpyBuffer_eq ctx.buffer (input.drop (128 * (ilen / 128))) (o := 0) (n := ilen % 128)
      (by omega) (by rw [List.length_drop]; omega)
    refine ⟨{ ctx with state := s, buffer := b }, ?_, rfl, rfl, hs, ?_⟩
    · simp only [updateRest, hblocks, Option.bind_eq_bind, Option.bind_some, Nat.pos_of_ne_zero hzero, if_true, hcopy,
        Option.pure_def]
    · have hlen' : ((input.drop (128 * (ilen / 128))).take (ilen % 128)).length = ilen % 128 := by
        rw [List.length_take, List.length_drop]
        omega
      have hfront := take_patch (o := 0) (l := ctx.buffer.1) ((input.drop (128 * (ilen / 128))).take (ilen % 128)) (Nat.zero_le _)
      rw [hlen', Nat.zero_add, List.take_zero, List.nil_append] at hfront
      rw [hb, hfront, leftover, htake, List.drop_take]
      congr 1
      omega

/-- An update that does not fill the block only copies its input behind what waits. -/
theorem updateRest_of_short (ctx : Context) {input : List UInt8} {ilen left : Nat} (hlen : ilen ≤ input.length)
    (hfill : left + ilen < 128) (hpos : 0 < ilen) :
    ∃ b : ByteArr 128, updateRest ctx input ilen left = some { ctx with buffer := b } ∧
      b.1 = patch ctx.buffer.1 left (input.take ilen) := by
  obtain ⟨b, hcopy, hb⟩ := memcpyBuffer_eq ctx.buffer input (o := left) (by omega) hlen
  refine ⟨b, ?_, hb⟩
  have hblocks : updateBlocks ilen ctx input ilen = some (ctx, input, ilen) := by
    cases ilen with
    | zero => rfl
    | succ n => rw [updateBlocks, if_pos (by omega)]
  simp only [updateRest, hblocks, Option.bind_eq_bind, Option.bind_some, hpos, if_true, hcopy, Option.pure_def]

/-- The number of bytes in the buffer is the remainder of the number of all bytes. -/
theorem toNat_and_127 (x : UInt64) : (x &&& 0x7F).toNat = x.toNat % 128 := by
  rw [UInt64.toNat_and, show (0x7F : UInt64).toNat = 2 ^ 7 - 1 from rfl, Nat.and_two_pow_sub_one_eq_mod]

/-- An update pushes its input into the stream. -/
theorem Follows.update {ctx : Context} {len : Nat} {st : Stream Sha384.Vars UInt8 128} (h : Follows ctx len st)
    {input : List UInt8} {n : Nat} (hn : n ≤ input.length) (hn64 : n < 2 ^ 64) (hlen : len + n < 2 ^ 128) :
    ∃ ctx', Sha512.update ctx input n = some ctx' ∧ Follows ctx' (len + n) (st.push Sha384.compress (input.take n)) := by
  by_cases hzero : n = 0
  · subst hzero
    refine ⟨ctx, if_pos rfl, ?_⟩
    rw [List.take_zero, Stream.push_nil, Nat.add_zero]
    exact h
  have htotal := total_add h.total hn64 hlen
  have hleft : (ctx.total0 &&& 0x7F).toNat = st.pending.length := by
    have htot := h.total
    rw [toNat_and_127, h.left]
    omega
  have hshort := st.short
  have htake : (input.take n).length = n := List.length_take_of_le hn
  unfold Sha512.update
  simp only [if_neg hzero, hleft]
  generalize ctx.total0 + UInt64.ofNat n = t0 at htotal ⊢
  generalize (if t0 < UInt64.ofNat n then ctx.total1 + 1 else ctx.total1) = t1 at htotal ⊢
  -- the length of what waits after the push
  have hrest : (leftover 128 (st.pending ++ input.take n)).length = (len + n) % 128 := by
    rw [length_leftover, List.length_append, htake, h.left]
    omega
  by_cases hfull : st.pending.length ≠ 0 ∧ n ≥ 128 - st.pending.length
  · obtain ⟨hne, hge⟩ := hfull
    rw [if_pos ⟨hne, hge⟩]
    -- the block that was begun is filled and compressed
    obtain ⟨b, hcopy, hb⟩ := memcpyBuffer_eq ctx.buffer input (o := st.pending.length) (n := 128 - st.pending.length)
      (by omega) (by omega)
    have hblock : b.1 = st.pending ++ input.take (128 - st.pending.length) := by
      have hall := take_patch (o := st.pending.length) (l := ctx.buffer.1) (input.take (128 - st.pending.length))
        (by rw [ctx.buffer.2]; omega)
      rw [List.length_take_of_le (by omega), Nat.add_sub_cancel' (Nat.le_of_lt hshort), ← hb, h.pending,
        List.take_of_length_le (Nat.le_of_eq b.2)] at hall
      exact hall
    obtain ⟨s, hprocess, hs⟩ := process_eq ⟨t0, t1, ctx.state, b⟩ b.1 (Nat.le_of_eq b.2.symm)
    obtain ⟨ctx', hrun, h0, h1, hstate, hbuffer⟩ := updateRest_of_empty ⟨t0, t1, s, b⟩
      (input.drop (128 - st.pending.length)) (n - (128 - st.pending.length)) (by rw [List.length_drop]; omega)
    refine ⟨ctx', ?_, ?_⟩
    · simp only [hcopy, Option.bind_eq_bind, Option.bind_some, hprocess, hrun]
    · have hcut : input.take n = input.take (128 - st.pending.length) ++
          (input.drop (128 - st.pending.length)).take (n - (128 - st.pending.length)) := by
        rw [← List.take_add, Nat.add_sub_cancel' hge]
      have hfilled : (st.pending ++ input.take (128 - st.pending.length)).length = 128 := by
        rw [← hblock, b.2]
      have hvars : s.vars = Sha384.compress st.state (st.pending ++ input.take (128 - st.pending.length)) := by
        rw [hs, hblock, List.take_of_length_le (Nat.le_of_eq hfilled), h.state]
      have hpush : st.push Sha384.compress (input.take n) = (Stream.start (by decide) s.vars).push Sha384.compress
          ((input.drop (128 - st.pending.length)).take (n - (128 - st.pending.length))) := by
        rw [hcut, ← Stream.push_push, Stream.push_of_fill _ _ hfilled, hvars]
      have hwait : ((Stream.start (by decide) s.vars : Stream Sha384.Vars UInt8 128).push Sha384.compress
          ((input.drop (128 - st.pending.length)).take (n - (128 - st.pending.length)))).pending.length =
            (n - (128 - st.pending.length)) % 128 := by
        rw [← hpush]
        simp only [Stream.push, hrest, h.left]
        have := h.left
        omega
      rw [hpush]
      refine ⟨by rw [h0, h1]; exact htotal, hstate, ?_, ?_⟩
      · rw [hwait]
        exact hbuffer
      · rw [hwait]
        have := h.left
        omega
  · rw [if_neg hfull]
    by_cases hempty : st.pending.length = 0
    · obtain ⟨ctx', hrun, h0, h1, hstate, hbuffer⟩ := updateRest_of_empty ⟨t0, t1, ctx.state, ctx.buffer⟩ input n hn
      have hpending : st.pending = [] := List.length_eq_zero_iff.1 hempty
      have hmod : (len + n) % 128 = n % 128 := by
        have := h.left
        omega
      rw [hpending, List.nil_append] at hrest
      refine ⟨ctx', by rw [hempty, hrun], by rw [h0, h1]; exact htotal, ?_, ?_, ?_⟩
      · simp only [Stream.push, hpending, List.nil_append, ← h.state]
        exact hstate
      · simp only [Stream.push, hpending, List.nil_append, hrest, hmod]
        exact hbuffer
      · simp only [Stream.push, hpending, List.nil_append, hrest]
    · have hlt : st.pending.length + n < 128 := by omega
      obtain ⟨b, hrun, hb⟩ := updateRest_of_short ⟨t0, t1, ctx.state, ctx.buffer⟩ hn hlt (Nat.pos_of_ne_zero hzero)
      have happend : (st.pending ++ input.take n).length < 128 := by rw [List.length_append, htake]; exact hlt
      rw [Stream.push_of_lt _ _ happend]
      refine ⟨_, hrun, htotal, h.state, ?_, ?_⟩
      · have hall := take_patch (o := st.pending.length) (l := ctx.buffer.1) (input.take n) (by rw [ctx.buffer.2]; omega)
        simp only [List.length_append, hb]
        rw [hall, h.pending]
      · have := h.left
        simp only [List.length_append, htake]
        omega

/-- The updates of a message that comes in pieces. -/
theorem Follows.foldlM {ctx : Context} {len : Nat} {st : Stream Sha384.Vars UInt8 128} (h : Follows ctx len st)
    {pieces : List (List UInt8)} (hpieces : ∀ c ∈ pieces, c.length < 2 ^ 64) (hlen : len + pieces.flatten.length < 2 ^ 128) :
    ∃ ctx', pieces.foldlM (fun ctx c => Sha512.update ctx c c.length) ctx = some ctx' ∧
      Follows ctx' (len + pieces.flatten.length) (st.push Sha384.compress pieces.flatten) := by
  induction pieces generalizing ctx len st with
  | nil =>
    refine ⟨ctx, rfl, ?_⟩
    rw [List.flatten_nil, Stream.push_nil]
    exact h
  | cons c pieces ih =>
    rw [List.flatten_cons, List.length_append] at hlen
    obtain ⟨ctx₁, hrun, h₁⟩ := h.update (Nat.le_refl c.length) (hpieces c (List.mem_cons_self ..)) (by omega)
    obtain ⟨ctx', hrest, h'⟩ := ih h₁ (fun c hc => hpieces c (List.mem_cons_of_mem _ hc)) (by omega)
    refine ⟨ctx', ?_, ?_⟩
    · rw [List.foldlM_cons, hrun]
      exact hrest
    · rw [List.take_length, Stream.push_push, Nat.add_assoc] at h'
      rw [List.flatten_cons, List.length_append]
      exact h'

/-- The length of the message in bits, as `mbedtls_sha512_finish` writes it. -/
theorem msglen_eq {ctx : Context} {len : Nat} (h : ctx.total0.toNat + 2 ^ 64 * ctx.total1.toNat = len) (hlen : len < 2 ^ 125) :
    putUint64Be (ctx.total0 >>> 61 ||| ctx.total1 <<< 3) ++ putUint64Be (ctx.total0 <<< 3) = toBe 16 (8 * len) := by
  have h0 := ctx.total0.toNat_lt
  have h1 : ctx.total1.toNat < 2 ^ 61 := by omega
  have hlow : (ctx.total0 <<< 3).toNat = 8 * len % 2 ^ 64 := by
    rw [UInt64.toNat_shiftLeft, show (3 : UInt64).toNat % 64 = 3 from rfl, Nat.shiftLeft_eq]
    omega
  have hhigh : (ctx.total0 >>> 61 ||| ctx.total1 <<< 3).toNat = 8 * len / 2 ^ 64 := by
    have hsmall : ctx.total0.toNat / 2 ^ 61 < 2 ^ 3 := by omega
    rw [UInt64.toNat_or, UInt64.toNat_shiftRight, UInt64.toNat_shiftLeft, show (61 : UInt64).toNat % 64 = 61 from rfl,
      show (3 : UInt64).toNat % 64 = 3 from rfl, Nat.shiftRight_eq_div_pow, Nat.shiftLeft_eq,
      Nat.mod_eq_of_lt (a := ctx.total1.toNat * 2 ^ 3) (by omega), Nat.or_comm, Nat.mul_comm,
      ← Nat.two_pow_add_eq_or_of_lt hsmall]
    omega
  rw [putUint64Be_eq, putUint64Be_eq, Sha384.bytesOf, Sha384.bytesOf, hhigh, hlow, toBe_add 8 8, ← toBe_mod 8 (8 * len),
    show 256 ^ 8 = 2 ^ 64 from rfl]

/-- At the end the stream is padded, and the hash value is stored. -/
theorem Follows.finish {ctx : Context} {message : List UInt8}
    (h : Follows ctx message.length ((Stream.start (by decide) Sha384.initial).push Sha384.compress message))
    (hlen : message.length < 2 ^ 125) :
    ∃ out, Sha512.finish ctx = some out ∧ out.1 = (Sha384.value message).words.flatMap Sha384.bytesOf := by
  have htot := h.total
  obtain ⟨last, hlast⟩ : ∃ last, last = message.length % 128 := ⟨_, rfl⟩
  have hlast' : (ctx.total0 &&& 0x7F).toNat = last := by
    rw [toNat_and_127, hlast]
    omega
  obtain ⟨padn, hpadn⟩ : ∃ padn, padn = if last < 112 then 112 - last else 240 - last := ⟨_, rfl⟩
  have hpad : padn = (239 - last) % 128 + 1 := by
    rw [hpadn]
    split <;> omega
  have hroom : padn ≤ sha512Padding.length := by
    rw [sha512Padding, List.length_cons, List.length_replicate]
    omega
  have hsixteen : 16 ≤ (toBe 16 (8 * message.length)).length := Nat.le_of_eq (length_toBe _ _).symm
  obtain ⟨ctx₁, hrun₁, h₁⟩ := h.update hroom (by omega) (by omega)
  obtain ⟨ctx₂, hrun₂, h₂⟩ := h₁.update hsixteen (by decide) (by omega)
  -- the padding of the standard is what the two updates push
  have hzeros : sha512Padding.take padn ++ (toBe 16 (8 * message.length)).take 16 = Sha384.padding message.length := by
    rw [List.take_of_length_le (Nat.le_of_eq (length_toBe _ _)), hpad, sha512Padding, List.take_succ_cons, List.take_replicate,
      Sha384.padding, ← hlast, Nat.min_eq_left (by omega)]
  rw [Stream.push_push, Stream.push_push, hzeros] at h₂
  have hvalue : ctx₂.state.vars = Sha384.value message := h₂.state
  refine ⟨stored ctx₂.state, ?_, ?_⟩
  · simp only [Sha512.finish, hlast', ← hpadn, msglen_eq htot hlen, hrun₁, hrun₂, Option.bind_eq_bind, Option.bind_some,
      Option.pure_def]
  · rw [← hvalue]
    simp only [stored, putUint64Be_eq, Words.vars, Sha384.Vars.words, List.flatMap_cons, List.flatMap_nil, List.append_nil,
      List.append_assoc]

/-- The first six words of what is stored are the digest. -/
theorem take_eq_digest {message : List UInt8} {out : ByteArr 64}
    (h : out.1 = (Sha384.value message).words.flatMap Sha384.bytesOf) : out.1.take 48 = Sha384.digest message := by
  have hsix : (((Sha384.value message).words.take 6).flatMap Sha384.bytesOf).length = 48 := Sha384.length_digest message
  rw [h, Sha384.digest, ← List.take_append_drop 6 (Sha384.value message).words, List.flatMap_append, List.take_left' hsix,
    List.take_append_drop]

/-- An empty stream has the context of a start. -/
theorem follows_starts : Follows (starts init) 0 (Stream.start (by decide) Sha384.initial) :=
  ⟨rfl, starts_vars init, rfl, rfl⟩

/-- A message in one call: its digest is the first 48 bytes of what `SHA384` stores. -/
theorem sha384_eq {input : List UInt8} {n : Nat} (hn : n ≤ input.length) (hlen : n < 2 ^ 64) :
    ∃ out, Sha512.sha384 input n = some out ∧ out.1.take 48 = Sha384.digest (input.take n) := by
  have hlength : (input.take n).length = n := List.length_take_of_le hn
  obtain ⟨ctx, hrun, h⟩ := follows_starts.update hn hlen (by omega)
  have hfollows : Follows ctx (input.take n).length
      ((Stream.start (by decide) Sha384.initial).push Sha384.compress (input.take n)) := by
    rw [Nat.zero_add] at h
    rw [hlength]
    exact h
  obtain ⟨out, hfinish, hout⟩ := hfollows.finish (by omega)
  exact ⟨out, by rw [Sha512.sha384, hrun]; exact hfinish, take_eq_digest hout⟩

end Sha512

open Sha512

/-- However a message of less than 2^125 bytes is cut into pieces, updates with the pieces and a finish stay inside their buffers,
and the first 48 bytes they store are the SHA-384 digest of the message. -/
theorem sha512_updates_eq_sha384 (pieces : List (List UInt8)) (hpieces : ∀ c ∈ pieces, c.length < 2 ^ 64)
    (hlen : pieces.flatten.length < 2 ^ 125) :
    ∃ out : ByteArr 64, (pieces.foldlM (fun ctx c => update ctx c c.length) (starts init) >>= finish) = some out ∧
      out.1.take 48 = Sha384.digest pieces.flatten := by
  obtain ⟨ctx, hrun, h⟩ := follows_starts.foldlM hpieces (by omega)
  rw [Nat.zero_add] at h
  obtain ⟨out, hfinish, hout⟩ := h.finish hlen
  exact ⟨out, by rw [hrun]; exact hfinish, take_eq_digest hout⟩

/-- `ABC` and `abc`: the digest of the standard is what the tests of the repository expect for `ABCabc`. -/
theorem sha512_updates_eq_sha384_two :
    Sha384.digest [0x41, 0x42, 0x43, 0x61, 0x62, 0x63] =
      [0xf1, 0x5e, 0xf1, 0xfd, 0x00, 0x5d, 0xbb, 0x68, 0x20, 0x9e, 0xea, 0xe4, 0xde, 0x4e, 0x13, 0x11, 0x6f, 0xb6, 0x52, 0xe4,
        0x84, 0x1b, 0x03, 0xb8, 0x82, 0x0e, 0x6a, 0x42, 0x3a, 0x22, 0x25, 0xf6, 0x84, 0x92, 0x53, 0x34, 0x06, 0x11, 0xa3, 0xad,
        0x93, 0x01, 0xaa, 0xb3, 0x71, 0x8d, 0xee, 0x7a] := by
  obtain ⟨pieces, hpieces⟩ : ∃ pieces : List (List UInt8), pieces = [[0x41, 0x42, 0x43], [0x61, 0x62, 0x63]] := ⟨_, rfl⟩
  obtain ⟨out, hrun, hout⟩ := sha512_updates_eq_sha384 pieces (by simp [hpieces]) (by simp [hpieces])
  have hcode : ((pieces.foldlM (fun ctx c => update ctx c c.length) (starts init) >>= finish).map fun out => out.1.take 48) =
      some [0xf1, 0x5e, 0xf1, 0xfd, 0x00, 0x5d, 0xbb, 0x68, 0x20, 0x9e, 0xea, 0xe4, 0xde, 0x4e, 0x13, 0x11, 0x6f, 0xb6, 0x52,
        0xe4, 0x84, 0x1b, 0x03, 0xb8, 0x82, 0x0e, 0x6a, 0x42, 0x3a, 0x22, 0x25, 0xf6, 0x84, 0x92, 0x53, 0x34, 0x06, 0x11, 0xa3,
        0xad, 0x93, 0x01, 0xaa, 0xb3, 0x71, 0x8d, 0xee, 0x7a] := by
    rw [hpieces]
    decide +kernel
  rw [hrun, Option.map_some, hout, hpieces] at hcode
  exact Option.some.inj hcode

end LedgerArweave
