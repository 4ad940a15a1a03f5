import LedgerArweave.KeySlots
import LedgerArweave.Lib.BigEndian
import LedgerArweave.Lib.Lucas
import Mathlib.Tactic.NormNum.Prime
import Mathlib.Tactic.IntervalCases

/-!
# The length of the modulus

`crypto_init_primes` forces the top bit of each of the two numbers it starts the search for a prime from, and no other bit. Two
primes of 2048 bits have a product of 4095 or of 4096 bits: which of the two depends on what the hashes say further down.
-/

namespace LedgerArweave

open Lib

section

variable (P : Platform) (masterSeed : ByteArr 32)

/-- The bytes that `cx_math_next_prime_no_throw` is called with. -/
def candidate (index : Nat) : ByteArr 256 := ByteArr.ofList 256 (setTopBit (primeSeed P masterSeed index))

/-- What the two calls do that make a key pair from the candidates of a seed: `cx_math_next_prime_no_throw` replaces a candidate
by a prime that is not smaller and fits the 256 bytes, and `cx_rsa_generate_pair_no_throw` multiplies the two primes. -/
structure Platform.GeneratesFrom : Prop where
  prime : ∀ index < 2, (ofBe (P.nextPrime (candidate P masterSeed index)).1).Prime
  candidate_le : ∀ index < 2, ofBe (candidate P masterSeed index).1 ≤ ofBe (P.nextPrime (candidate P masterSeed index)).1
  modulus : ∀ p q : ByteArr 256, (ofBe p.1).Prime → (ofBe q.1).Prime →
    ofBe (P.generatePair (ByteArr.ofList 512 (p.1 ++ q.1))).1.n.1 = ofBe p.1 * ofBe q.1

/-- The prime found is the next one: there is none between it and the candidate. -/
def Platform.FindsNext : Prop :=
  ∀ index < 2, ∀ p, p.Prime → ofBe (candidate P masterSeed index).1 ≤ p →
    ofBe (P.nextPrime (candidate P masterSeed index)).1 ≤ p

/-- The modulus that `crypto_init_primes` and `crypto_init_keys` leave in the slot in use, whenever both succeed on the seed. -/
def Platform.ModulusIn (lo hi : Nat) : Prop :=
  ∀ (env : InitEnv) (s s₁ s₂ : CryptoStore), s.slot.masterSeed = masterSeed →
    (cryptoInitPrimes P env).run s = .ok ⟨⟩ s₁ → (cryptoInitKeys P env).run s₁ = .ok ⟨⟩ s₂ →
    lo ≤ ofBe s₂.slot.rsaPub.n.1 ∧ ofBe s₂.slot.rsaPub.n.1 < hi

/-- The candidates leave no room for a short modulus: any two primes of 2048 bits from them on have a product of 4096 bits. -/
def FullFrom : Prop :=
  ∀ p q : Nat, p.Prime → q.Prime → ofBe (candidate P masterSeed 0).1 ≤ p → ofBe (candidate P masterSeed 1).1 ≤ q →
    p < 2 ^ 2048 → q < 2 ^ 2048 → 2 ^ 4095 ≤ p * q

/-- The same hash function over other calls for the primes and for the key pair. -/
def Platform.withKeys (nextPrime : ByteArr 256 → ByteArr 256) (generatePair : ByteArr 512 → RsaPublicKey × RsaPrivateKey) :
    Platform :=
  { P with nextPrime := nextPrime, generatePair := generatePair }

namespace ModulusAux

/-! ## What the two functions store -/

variable {P masterSeed} {env : InitEnv}

/-- A store whose slot in use holds a seed. -/
def storeOf (masterSeed : ByteArr 32) : CryptoStore :=
  { CryptoStore.erased with nCryptoStore := fun _ => { CryptoSlot.erased with masterSeed := masterSeed } }

variable (P masterSeed) in
/-- The two functions succeed on every seed, and leave the modulus of its keys. -/
theorem modulusIn_iff (lo hi : Nat) :
    P.ModulusIn masterSeed lo hi ↔
      lo ≤ ofBe (keysOf P masterSeed).1.n.1 ∧ ofBe (keysOf P masterSeed).1.n.1 < hi := by
  constructor
  · intro h
    have hpower : PowerHolds ⟨"", fun _ => false, none⟩ := fun _ _ hl => by cases hl
    have hprimes := run_cryptoInitPrimes P hpower (storeOf masterSeed)
    have hkeys := run_cryptoInitKeys P hpower (setSlot (fun k => { k with pq := primesOf P masterSeed }) (storeOf masterSeed))
    have hlast := h _ _ _ _ rfl hprimes hkeys
    rw [setSlot_slot, setSlot_slot] at hlast
    exact hlast
  · intro h env s s₁ s₂ hseed hprimes hkeys
    have hfound : Triple (fun s : CryptoStore => s.slot.masterSeed = masterSeed) (cryptoInitPrimes P env)
        (fun _ s => s.slot.pq = primesOf P masterSeed) fun _ _ => True :=
      CrashAux.triple_cryptoInitPrimes (fun _ _ _ => trivial) (fun _ hs => hs) fun s _ => by rw [setSlot_slot]
    have hmade : Triple (fun s : CryptoStore => s.slot.pq = primesOf P masterSeed) (cryptoInitKeys P env)
        (fun _ s => s.slot.rsaPub = (keysOf P masterSeed).1) fun _ _ => True := by
      refine CrashAux.triple_cryptoInitKeys (J := fun _ => True)
        (K := fun s => s.slot.rsaPub = (keysOf P masterSeed).1) (fun _ _ _ => trivial) (fun _ hs => hs)
        (fun _ _ => trivial) (fun s _ => ?_) (fun s hs => ?_) (fun _ _ _ => trivial) fun _ _ _ => trivial
      · rw [setSlot_slot, keysOf]
      · rw [setSlot_slot]
        exact hs
    rw [hmade.ok (hfound.ok hseed hprimes) hkeys]
    exact h

/-! ## The primes -/

/-- The hashes fill a candidate. -/
theorem length_primeSeed (P : Platform) (masterSeed : ByteArr 32) (index : Nat) :
    (primeSeed P masterSeed index).length = 256 := by
  rw [primeSeed, List.length_flatMap]
  simp only [fun h => (P.sha256 (primeData masterSeed index h)).2]
  rfl

/-- A candidate has 2048 bits. -/
theorem le_candidate (P : Platform) (masterSeed : ByteArr 32) (index : Nat) :
    2 ^ 2047 ≤ ofBe (candidate P masterSeed index).1 := by
  have hlen := length_primeSeed P masterSeed index
  cases hl : primeSeed P masterSeed index with
  | nil =>
    rw [hl] at hlen
    cases hlen
  | cons b rest =>
    rw [hl] at hlen
    have hrest : rest.length = 255 := Nat.succ.inj hlen
    have htop : 128 ≤ (b ||| 0x80).toNat := by
      rw [UInt8.toNat_or]
      exact Nat.right_le_or
    have hle := le_ofBe_cons htop rest
    rw [hrest, show 8 * 255 + 7 = 2047 from rfl] at hle
    rwa [candidate, hl, setTopBit, ByteArr.ofList_val (by rw [List.length_cons, hrest])]

/-- 256 bytes are 2048 bits. -/
theorem pow_256 : (256 : Nat) ^ 256 = 2 ^ 2048 := by
  rw [show 2048 = 8 * 256 from rfl, Nat.pow_mul]

/-- A number of 256 bytes has at most 2048 bits. -/
theorem ofBe_lt_of_fits (b : ByteArr 256) : ofBe b.1 < 2 ^ 2048 := by
  have h := ofBe_lt b.1
  rwa [b.2, pow_256] at h

/-- A number of at most 2048 bits is read back from 256 bytes. -/
theorem ofBe_toBe_of_lt {p : Nat} (h : p < 2 ^ 2048) : ofBe (toBe 256 p) = p := ofBe_toBe (by rwa [pow_256])

/-- The modulus is the product of the primes found. -/
theorem modulus_eq (hgen : P.GeneratesFrom masterSeed) :
    ofBe (keysOf P masterSeed).1.n.1 =
      ofBe (P.nextPrime (candidate P masterSeed 0)).1 * ofBe (P.nextPrime (candidate P masterSeed 1)).1 :=
  hgen.modulus _ _ (hgen.prime 0 (by decide)) (hgen.prime 1 (by decide))

/-- A product of two numbers of 2048 bits has 4095 or 4096 bits. -/
theorem modulus_bounds (hgen : P.GeneratesFrom masterSeed) :
    2 ^ 4094 ≤ ofBe (keysOf P masterSeed).1.n.1 ∧ ofBe (keysOf P masterSeed).1.n.1 < 2 ^ 4096 := by
  have hp := (le_candidate P masterSeed 0).trans (hgen.candidate_le 0 (by decide))
  have hq := (le_candidate P masterSeed 1).trans (hgen.candidate_le 1 (by decide))
  rw [modulus_eq hgen]
  constructor
  · calc 2 ^ 4094 = 2 ^ 2047 * 2 ^ 2047 := by rw [← Nat.pow_add, show 2047 + 2047 = 4094 from rfl]
      _ ≤ _ := Nat.mul_le_mul hp hq
  · calc _ < 2 ^ 2048 * 2 ^ 2048 := Nat.mul_lt_mul'' (ofBe_lt_of_fits _) (ofBe_lt_of_fits _)
      _ = 2 ^ 4096 := by rw [show 4096 = 2048 + 2048 from rfl, Nat.pow_add]

/-- A modulus between the bounds it always keeps is full when it is not too small. -/
theorem modulusIn_iff_le (hgen : P.GeneratesFrom masterSeed) :
    P.ModulusIn masterSeed (2 ^ 4095) (2 ^ 4096) ↔
      2 ^ 4095 ≤ ofBe (P.nextPrime (candidate P masterSeed 0)).1 * ofBe (P.nextPrime (candidate P masterSeed 1)).1 := by
  have hlt := (modulus_bounds hgen).2
  rw [modulusIn_iff, ← modulus_eq hgen]
  exact and_iff_left hlt

/-- The primes found are among those the condition on the candidates is about. -/
theorem FullFrom.modulusIn (h : FullFrom P masterSeed) (hgen : P.GeneratesFrom masterSeed) :
    P.ModulusIn masterSeed (2 ^ 4095) (2 ^ 4096) :=
  (modulusIn_iff_le hgen).2 (h _ _ (hgen.prime 0 (by decide)) (hgen.prime 1 (by decide)) (hgen.candidate_le 0 (by decide))
    (hgen.candidate_le 1 (by decide)) (ofBe_lt_of_fits _) (ofBe_lt_of_fits _))

/-- A key pair of two primes. -/
def rsaPair (pq : ByteArr 512) : RsaPublicKey × RsaPrivateKey :=
  let p := ofBe (pq.1.take 256)
  let q := ofBe (pq.1.drop 256)
  let n := ByteArr.ofList 512 (toBe 512 (p * q))
  -- the exponent 65537 has the inverse `d` modulo `phi`
  let phi := (p - 1) * (q - 1)
  let d := (1 + (65537 - phi ^ 65535 % 65537) * phi) / 65537
  (⟨512, ByteArr.ofList 4 [0, 1, 0, 1], n⟩, ⟨512, ByteArr.ofList 512 (toBe 512 d), n⟩)

/-- The modulus of the pair is the product of its two numbers. -/
theorem modulus_rsaPair (p q : ByteArr 256) :
    ofBe (rsaPair (ByteArr.ofList 512 (p.1 ++ q.1))).1.n.1 = ofBe p.1 * ofBe q.1 := by
  have hlen : (p.1 ++ q.1).length = 512 := by rw [List.length_append, p.2, q.2]
  have htake : (p.1 ++ q.1).take 256 = p.1 := List.take_left' p.2
  have hdrop : (p.1 ++ q.1).drop 256 = q.1 := List.drop_left' p.2
  have hlt : ofBe p.1 * ofBe q.1 < 256 ^ 512 := by
    calc ofBe p.1 * ofBe q.1 < 256 ^ 256 * 256 ^ 256 := by
          refine Nat.mul_lt_mul'' ?_ ?_
          · rw [pow_256]
            exact ofBe_lt_of_fits p
          · rw [pow_256]
            exact ofBe_lt_of_fits q
      _ = 256 ^ 512 := by rw [show 512 = 256 + 256 from rfl, Nat.pow_add]
  rw [rsaPair, ByteArr.ofList_val hlen, htake, hdrop]
  simp only
  rw [ByteArr.ofList_val (length_toBe _ _), ofBe_toBe hlt]

/-- The calls may find any two primes that fit, from the candidates on; one prime for both when the candidates are the same. -/
theorem generatesFrom_withKeys (nextPrime : ByteArr 256 → ByteArr 256)
    (h : ∀ index < 2, (ofBe (nextPrime (candidate P masterSeed index)).1).Prime ∧
      ofBe (candidate P masterSeed index).1 ≤ ofBe (nextPrime (candidate P masterSeed index)).1) :
    (P.withKeys nextPrime rsaPair).GeneratesFrom masterSeed :=
  ⟨fun index hi => (h index hi).1, fun index hi => (h index hi).2, fun p q _ _ => modulus_rsaPair p q⟩

/-- If the calls leave a full modulus whatever primes they find, then the candidates leave no room for a short one. -/
theorem fullFrom_of_forall
    (h : ∀ nextPrime generatePair, (P.withKeys nextPrime generatePair).GeneratesFrom masterSeed →
      (P.withKeys nextPrime generatePair).ModulusIn masterSeed (2 ^ 4095) (2 ^ 4096)) : FullFrom P masterSeed := by
  intro p q hp hq hcp hcq hpfit hqfit
  let bytes (n : Nat) : ByteArr 256 := ⟨toBe 256 n, length_toBe 256 n⟩
  have full : ∀ nextPrime : ByteArr 256 → ByteArr 256,
      (∀ index < 2, (ofBe (nextPrime (candidate P masterSeed index)).1).Prime ∧
        ofBe (candidate P masterSeed index).1 ≤ ofBe (nextPrime (candidate P masterSeed index)).1) →
      2 ^ 4095 ≤ ofBe (nextPrime (candidate P masterSeed 0)).1 * ofBe (nextPrime (candidate P masterSeed 1)).1 := by
    intro nextPrime hnext
    have hgen := generatesFrom_withKeys nextPrime hnext
    exact (modulusIn_iff_le hgen).1 (h nextPrime rsaPair hgen)
  by_cases heq : candidate P masterSeed 0 = candidate P masterSeed 1
  · -- one candidate: the smaller of the two primes is found twice
    have hmin : (min p q).Prime := by
      rcases Nat.le_total p q with hle | hle
      · rwa [Nat.min_eq_left hle]
      · rwa [Nat.min_eq_right hle]
    have hfit : min p q < 2 ^ 2048 := lt_of_le_of_lt (Nat.min_le_left p q) hpfit
    have hsquare := full (fun _ => bytes (min p q)) fun index hi => by
      rw [ofBe_toBe_of_lt hfit]
      refine ⟨hmin, ?_⟩
      interval_cases index
      · exact Nat.le_min.2 ⟨hcp, heq ▸ hcq⟩
      · exact Nat.le_min.2 ⟨heq ▸ hcp, hcq⟩
    rw [ofBe_toBe_of_lt hfit] at hsquare
    exact hsquare.trans (Nat.mul_le_mul (Nat.min_le_left p q) (Nat.min_le_right p q))
  · have hproduct := full (fun c => if c = candidate P masterSeed 0 then bytes p else bytes q) fun index hi => by
      interval_cases index
      · rw [if_pos rfl, ofBe_toBe_of_lt hpfit]
        exact ⟨hp, hcp⟩
      · rw [if_neg (Ne.symm heq), ofBe_toBe_of_lt hqfit]
        exact ⟨hq, hcq⟩
    rwa [if_pos rfl, if_neg (Ne.symm heq), ofBe_toBe_of_lt hpfit, ofBe_toBe_of_lt hqfit] at hproduct

end ModulusAux

open ModulusAux

/-- The modulus is a full 4096-bit number, whatever primes the search finds from the candidates on, exactly when the candidates
leave no room for a short one; and when the search finds the next primes, exactly then too. It always has 4095 bits, and 4096
bits when the candidates themselves have a product of 4096 bits. -/
theorem modulus_full_iff (P : Platform) (masterSeed : ByteArr 32) :
    ((∀ nextPrime generatePair, (P.withKeys nextPrime generatePair).GeneratesFrom masterSeed →
      (P.withKeys nextPrime generatePair).ModulusIn masterSeed (2 ^ 4095) (2 ^ 4096)) ↔ FullFrom P masterSeed) ∧
    (P.GeneratesFrom masterSeed → P.FindsNext masterSeed →
      (P.ModulusIn masterSeed (2 ^ 4095) (2 ^ 4096) ↔ FullFrom P masterSeed)) ∧
    (P.GeneratesFrom masterSeed → P.ModulusIn masterSeed (2 ^ 4094) (2 ^ 4096)) ∧
    (2 ^ 4095 ≤ ofBe (candidate P masterSeed 0).1 * ofBe (candidate P masterSeed 1).1 → FullFrom P masterSeed) := by
  refine ⟨⟨fullFrom_of_forall, ?_⟩, ?_, ?_, ?_⟩
  · intro hfull nextPrime generatePair hgen
    exact FullFrom.modulusIn (P := P.withKeys nextPrime generatePair) hfull hgen
  · intro hgen hnext
    refine ⟨fun hmod p q hp hq hcp hcq _ _ => ?_, fun hfull => FullFrom.modulusIn hfull hgen⟩
    exact ((modulusIn_iff_le hgen).1 hmod).trans
      (Nat.mul_le_mul (hnext 0 (by decide) p hp hcp) (hnext 1 (by decide) q hq hcq))
  · intro hgen
    exact (modulusIn_iff P masterSeed _ _).2 (modulus_bounds hgen)
  · intro hle p q _ _ hcp hcq _ _
    exact hle.trans (Nat.mul_le_mul hcp hcq)

end

/-! ## A seed with a short modulus -/

namespace Weak

open ModulusAux

/-- The factors above the power of two, in the two candidates. -/
def factor (index : UInt8) : Nat := if index = 0 then 44983 else 44277

/-- A hash function that gives two candidates with few bits set: the first hash starts with the factor, the others are zero. -/
def sha256 (data : List UInt8) : ByteArr 32 :=
  if data.getD 34 0 = 0 then ByteArr.ofList 32 (be16 (factor (data.getD 1 0))) else ByteArr.zero 32

/-- The platform of that hash function. The next prime of either candidate is the number after it. -/
def platform : Platform :=
  { Demo.platform with
    sha256 := sha256
    nextPrime := fun c => ByteArr.ofList 256 (toBe 256 (ofBe c.1 + 1))
    generatePair := rsaPair }

/-- The seed of erased flash. -/
def seed : ByteArr 32 := ByteArr.zero 32

/-- The first candidate, by evaluation. -/
theorem candidate_zero : ofBe (candidate platform seed 0).1 = 44983 * 2 ^ 2032 := by decide +kernel

/-- The second candidate. -/
theorem candidate_one : ofBe (candidate platform seed 1).1 = 44277 * 2 ^ 2032 := by decide +kernel

/-- The number after the first candidate. -/
theorem found_zero : ofBe (platform.nextPrime (candidate platform seed 0)).1 = 44983 * 2 ^ 2032 + 1 := by decide +kernel

/-- The number after the second candidate. -/
theorem found_one : ofBe (platform.nextPrime (candidate platform seed 1)).1 = 44277 * 2 ^ 2032 + 1 := by decide +kernel

set_option maxRecDepth 20000 in
/-- By Lucas: 3 has the order of the predecessor, whose prime factors are 2 and 44983. -/
theorem prime_zero : (44983 * 2 ^ 2032 + 1).Prime := by
  refine prime_of_squares (m := 2031) (a := 3) [44983] ?_ ?_ (by decide +kernel) (by decide +kernel)
  · intro p hp
    rw [List.mem_singleton.1 hp]
    norm_num
  · rw [List.prod_singleton]

set_option maxRecDepth 20000 in
/-- The same of 7; here the prime factors are 2, 3 and 14759. -/
theorem prime_one : (44277 * 2 ^ 2032 + 1).Prime := by
  refine prime_of_squares (m := 2031) (a := 7) [3, 14759] ?_ ?_ (by decide +kernel) (by decide +kernel)
  · intro p hp
    rcases List.mem_pair.1 hp with rfl | rfl <;> norm_num
  · rw [List.prod_pair]

/-- The calls of this platform find primes and multiply them. -/
theorem generatesFrom : platform.GeneratesFrom seed := by
  refine ⟨fun index hi => ?_, fun index hi => ?_, fun p q _ _ => modulus_rsaPair p q⟩
  · interval_cases index
    · rw [found_zero]
      exact prime_zero
    · rw [found_one]
      exact prime_one
  · interval_cases index
    · rw [found_zero, candidate_zero]
      exact Nat.le_add_right _ 1
    · rw [found_one, candidate_one]
      exact Nat.le_add_right _ 1

/-- The candidates are even, and no primes themselves. -/
theorem findsNext : platform.FindsNext seed := by
  intro index hi p hp hle
  have next : ∀ k, 1 < k → k * 2 ^ 2032 ≤ p → k * 2 ^ 2032 + 1 ≤ p := by
    intro k hk hkp
    refine Nat.lt_of_le_of_ne hkp fun heq => ?_
    rw [← heq] at hp
    exact Nat.not_prime_mul (Nat.ne_of_gt hk) (Nat.ne_of_gt (Nat.one_lt_two_pow (by decide))) hp
  interval_cases index
  · rw [candidate_zero] at hle
    rw [found_zero]
    exact next 44983 (by decide) hle
  · rw [candidate_one] at hle
    rw [found_one]
    exact next 44277 (by decide) hle

/-- The product of the two primes has less than 4096 bits. -/
theorem product_lt : (44983 * 2 ^ 2032 + 1) * (44277 * 2 ^ 2032 + 1) < 2 ^ 4095 := by decide +kernel

end Weak

/-- There are a hash function and a seed, calls that find the next primes of the candidates and multiply them, and a product of
4095 bits. -/
theorem not_modulus_full :
    Weak.platform.GeneratesFrom Weak.seed ∧ Weak.platform.FindsNext Weak.seed ∧
      ¬Weak.platform.ModulusIn Weak.seed (2 ^ 4095) (2 ^ 4096) := by
  refine ⟨Weak.generatesFrom, Weak.findsNext, fun hmod => ?_⟩
  have hle := (ModulusAux.modulusIn_iff_le Weak.generatesFrom).1 hmod
  rw [Weak.found_zero, Weak.found_one] at hle
  exact Nat.not_le_of_gt Weak.product_lt hle

/-- The parts with a hypothesis, there: the candidates leave room for a short modulus, and the modulus has 4095 bits. -/
theorem modulus_full_iff_weak :
    (Weak.platform.ModulusIn Weak.seed (2 ^ 4095) (2 ^ 4096) ↔ FullFrom Weak.platform Weak.seed) ∧
      ¬FullFrom Weak.platform Weak.seed ∧ Weak.platform.ModulusIn Weak.seed (2 ^ 4094) (2 ^ 4096) := by
  obtain ⟨-, hiff, hbounds, -⟩ := modulus_full_iff Weak.platform Weak.seed
  refine ⟨hiff Weak.generatesFrom Weak.findsNext, fun hfull => ?_, hbounds Weak.generatesFrom⟩
  have hle := hfull _ _ Weak.prime_zero Weak.prime_one (by rw [Weak.candidate_zero]; exact Nat.le_add_right _ 1)
    (by rw [Weak.candidate_one]; exact Nat.le_add_right _ 1) (by decide +kernel) (by decide +kernel)
  exact Nat.not_le_of_gt Weak.product_lt hle

end LedgerArweave
