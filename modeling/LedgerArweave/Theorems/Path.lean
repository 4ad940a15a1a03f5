import LedgerArweave.Js.Path

/-!
# Paths there and back

`serializePathv1` marks a hardened component by the bit 2^31, and `printBIP44Item` takes every number from 2^27 on for hardened:
its threshold lacks a digit. What a component may be is left to `Number`, which reads more than decimal digits.
-/

namespace LedgerArweave

open Lib

/-- A component of a path: a number below 2^31, and whether it is hardened. -/
structure PathItem where
  index : Nat
  index_lt : index < 2 ^ 31
  hardened : Bool

/-- The text of a component: its number in decimal, and an apostrophe when it is hardened. -/
def PathItem.text (c : PathItem) : EcmaString := decimalString c.index ++ mark c.hardened

/-- The path of some components. -/
def pathText (items : List PathItem) : EcmaString := [slash].intercalate (ecma "m" :: items.map PathItem.text)

/-- Serialising the path of some components and printing the bytes gives the path. -/
def RoundTrips (items : List PathItem) : Prop := (serializePathv1 (pathText items) >>= printBIP44Path) = .ok (pathText items)

/-- A component that is made of decimal digits, and maybe an apostrophe behind them. -/
def IsDecimal (child : EcmaString) : Prop := ∃ ds marked, IsDigits 10 ds ∧ child = ds ++ mark marked

/-- A number is the one below 2^31 that the decimal digits of a component denote, with the hardened bit set when the component
ends in an apostrophe. -/
def Denotes (child : EcmaString) (v : Nat) : Prop :=
  ∃ ds marked, IsDigits 10 ds ∧ child = ds ++ mark marked ∧ digitsValue 10 ds < 2 ^ 31 ∧
    v = hardenedBit marked + digitsValue 10 ds

/-- The buffer holds what the decimal digits of the components of a path denote. -/
def WroteDigits (path : EcmaString) (buf : List UInt8) : Prop :=
  ∃ vs, ([0, 1, 2, 3, 4].mapM fun i => readUInt32LE buf (4 * i)) = .ok vs ∧ List.Forall₂ Denotes (components path) vs

namespace PathAux

/-! ## Paths of components -/

/-- The number that stands for a component. -/
def word (c : PathItem) : Nat := hardenedBit c.hardened + c.index

/-- It fits four bytes. -/
theorem word_lt (c : PathItem) : word c < 2 ^ 32 := by
  have hbit := hardenedBit_le c.hardened
  have hindex := c.index_lt
  rw [word]
  omega

/-- Digits hold no slash. -/
theorem slash_not_mem_digits {ds : EcmaString} (hds : IsDigits 10 ds) : slash ∉ ds := by
  intro h
  exact ne_of_isDigitOf_ten (all_of_isDigits hds slash h) (by decide) rfl

/-- Nor does a component. -/
theorem slash_not_mem_marked (n : Nat) (marked : Bool) : slash ∉ decimalString n ++ mark marked := by
  rw [List.mem_append, not_or]
  exact ⟨slash_not_mem_digits (isDigits_decimalString n), by cases marked <;> decide⟩

/-- Parts without slashes come apart again. -/
theorem splitOn_intercalate {parts : List EcmaString} (h : ∀ part ∈ parts, slash ∉ part) :
    ([slash].intercalate (ecma "m" :: parts)).splitOn slash = ecma "m" :: parts := by
  refine List.splitOn_intercalate slash (fun part hpart => ?_) (List.cons_ne_nil _ _)
  rcases List.mem_cons.1 hpart with rfl | hpart
  · decide
  · exact h part hpart

/-- A path is split into its components. -/
theorem splitOn_pathText (items : List PathItem) :
    (pathText items).splitOn slash = ecma "m" :: items.map PathItem.text := by
  refine splitOn_intercalate fun part hpart => ?_
  obtain ⟨c, -, rfl⟩ := List.mem_map.1 hpart
  exact slash_not_mem_marked c.index c.hardened

/-- A path starts with `m`. -/
theorem head_pathText (items : List PathItem) : (pathText items).head? = some (unit 'm') := by
  cases items <;> rfl

/-- The path of five components is serialised. -/
theorem serializePathv1_pathText {items : List PathItem} (hlen : items.length = 5) :
    serializePathv1 (pathText items) = .ok ((items.map word).flatMap le32) := by
  refine serializePathv1_eq_ok.2 ⟨head_pathText items, ?_, items.map word, ?_, rfl⟩
  · rw [splitOn_pathText, List.length_cons, List.length_map, hlen]
  · rw [components, splitOn_pathText, List.drop_one, List.tail_cons, List.forall₂_map_left_iff, List.forall₂_map_right_iff,
      List.forall₂_same]
    intro c _
    refine (writes_digits (isDigits_decimalString c.index) c.hardened (word c)).2 ?_
    rw [digitsValue_decimalString]
    exact ⟨c.index_lt, rfl⟩

/-! ## Printing a component -/

/-- A number is printed as its low 31 bits, with an apostrophe from 2^27 on. -/
theorem printBIP44Item_eq (v : Nat) : printBIP44Item v = decimalString (v % 2 ^ 31) ++ mark (decide (2 ^ 27 ≤ v)) := by
  rw [printBIP44Item, show 0x7fffffff = 2 ^ 31 - 1 from rfl, Nat.and_two_pow_sub_one_eq_mod, mark]
  simp only [ge_iff_le, decide_eq_true_eq]
  rfl

/-- A component is printed as it was, unless it is taken for a hardened one. -/
theorem printBIP44Item_word (c : PathItem) : printBIP44Item (word c) = c.text ↔ c.hardened = true ∨ c.index < 2 ^ 27 := by
  obtain ⟨index, index_lt, marked⟩ := c
  have hmod : (hardenedBit marked + index) % 2 ^ 31 = index := by
    cases marked with
    | true => rw [hardenedBit_true, Nat.add_mod_left, Nat.mod_eq_of_lt index_lt]
    | false => rw [hardenedBit_false, Nat.zero_add, Nat.mod_eq_of_lt index_lt]
  rw [printBIP44Item_eq, word, hmod, PathItem.text, List.append_right_inj, mark_inj]
  cases marked with
  | true =>
    rw [hardenedBit_true, decide_eq_true_eq]
    exact iff_of_true (by omega) (Or.inl rfl)
  | false =>
    rw [hardenedBit_false, Nat.zero_add, decide_eq_false_iff_not, Nat.not_le]
    exact (or_iff_right Bool.false_ne_true).symm

/-- A printed component holds no slash. -/
theorem slash_not_mem_printBIP44Item (v : Nat) : slash ∉ printBIP44Item v := by
  rw [printBIP44Item_eq]
  exact slash_not_mem_marked _ _

/-- The path comes back when every component does. -/
theorem roundTrips_iff {items : List PathItem} (hlen : items.length = 5) :
    RoundTrips items ↔ ∀ c ∈ items, printBIP44Item (word c) = c.text := by
  have hprint : printBIP44Path ((items.map word).flatMap le32) =
      .ok ([slash].intercalate (ecma "m" :: (items.map word).map printBIP44Item)) := by
    refine printBIP44Path_flatMap (by rw [List.length_map, hlen]) fun v hv => ?_
    obtain ⟨c, -, rfl⟩ := List.mem_map.1 hv
    exact word_lt c
  have hparts : ∀ part ∈ (items.map word).map printBIP44Item, slash ∉ part := by
    intro part hpart
    obtain ⟨v, -, rfl⟩ := List.mem_map.1 hpart
    exact slash_not_mem_printBIP44Item v
  have hsame : RoundTrips items ↔ (items.map word).map printBIP44Item = items.map PathItem.text := by
    rw [RoundTrips, serializePathv1_pathText hlen]
    change printBIP44Path ((items.map word).flatMap le32) = _ ↔ _
    rw [hprint]
    constructor
    · intro h
      have hjoined := congrArg (List.splitOn slash) (Except.ok.inj h)
      rw [splitOn_intercalate hparts, splitOn_pathText] at hjoined
      exact (List.cons.inj hjoined).2
    · intro h
      rw [h, pathText]
  rw [hsame, List.map_map, List.map_inj_left]
  rfl

/-! ## What the digits denote -/

/-- What is written for decimal digits is what they denote. -/
theorem denotes_of_isDecimal {child : EcmaString} {v : Nat} (h : IsDecimal child) (hwrites : Writes child v) : Denotes child v := by
  obtain ⟨ds, marked, hds, rfl⟩ := h
  obtain ⟨hlt, hv⟩ := (writes_digits hds marked v).1 hwrites
  exact ⟨ds, marked, hds, rfl, hlt, hv⟩

/-- Only decimal digits denote a number. -/
theorem isDecimal_of_denotes {child : EcmaString} {v : Nat} (h : Denotes child v) : IsDecimal child := by
  obtain ⟨ds, marked, hds, hchild, -, -⟩ := h
  exact ⟨ds, marked, hds, hchild⟩

/-- A component of decimal digits starts with one. -/
theorem head_of_isDecimal {child : EcmaString} (h : IsDecimal child) : child.head?.any (isDigitOf 10) = true := by
  obtain ⟨ds, marked, hds, rfl⟩ := h
  cases ds with
  | nil => exact absurd rfl hds.1
  | cons c ds => exact all_of_isDigits hds c (List.mem_cons_self ..)

/-- So a buffer that holds what the digits of a path denote is of a path of digits. -/
theorem isDecimal_of_wroteDigits {path : EcmaString} {buf : List UInt8} (h : WroteDigits path buf) :
    ∀ child ∈ components path, IsDecimal child := by
  obtain ⟨vs, -, hdenotes⟩ := h
  exact ((List.forall₂_and_left _ _).1 (hdenotes.imp fun _ _ h => ⟨isDecimal_of_denotes h, h⟩)).1

/-- The components of the path of some components. -/
theorem isDecimal_pathText (items : List PathItem) : ∀ child ∈ components (pathText items), IsDecimal child := by
  intro child hchild
  rw [components, splitOn_pathText, List.drop_one, List.tail_cons] at hchild
  obtain ⟨c, -, rfl⟩ := List.mem_map.1 hchild
  exact ⟨_, c.hardened, isDigits_decimalString c.index, rfl⟩

/-- What is written for a component is what its digits denote when it has no other characters. -/
theorem wroteDigits_iff {path : EcmaString} {vs : List Nat} (hlen : (path.splitOn slash).length = 6)
    (hvs : List.Forall₂ Writes (components path) vs) :
    WroteDigits path (vs.flatMap le32) ↔ ∀ child ∈ components path, IsDecimal child := by
  have hfive : vs.length = 5 := by rw [← hvs.length_eq, components, List.length_drop, hlen]
  have hbytes : ∀ v ∈ vs, v < 2 ^ 32 := by
    have hflip : List.Forall₂ (fun v child => v < 2 ^ 32 ∧ Writes child v) vs (components path) :=
      .flip (hvs.imp fun _ _ h => ⟨h.lt, h⟩)
    exact ((List.forall₂_and_left _ _).1 hflip).1
  refine ⟨isDecimal_of_wroteDigits, fun hdecimal => ⟨vs, mapM_readUInt32LE hfive hbytes, ?_⟩⟩
  exact ((List.forall₂_and_left _ _).2 ⟨hdecimal, hvs⟩).imp fun _ _ h => denotes_of_isDecimal h.1 h.2

end PathAux

open PathAux

/-- The path of five components comes back exactly when every component that is not hardened is below 2^27. And when
`serializePathv1` takes a string, it writes what the decimal digits of the components denote exactly when the components are
decimal digits, with an apostrophe or without. -/
theorem serializePathv1_spec (items : List PathItem) (hlen : items.length = 5) :
    (RoundTrips items ↔ ∀ c ∈ items, c.hardened = true ∨ c.index < 2 ^ 27) ∧
      ∀ path buf, serializePathv1 path = .ok buf → (WroteDigits path buf ↔ ∀ child ∈ components path, IsDecimal child) := by
  constructor
  · rw [roundTrips_iff hlen]
    exact forall₂_congr fun c _ => printBIP44Item_word c
  · intro path buf h
    obtain ⟨-, hsix, vs, hvs, rfl⟩ := serializePathv1_eq_ok.1 h
    exact wroteDigits_iff hsix hvs

/-- Five components, the first of which is given. -/
def itemsFrom (c : PathItem) : List PathItem := c :: List.replicate 4 ⟨0, by decide, false⟩

/-- The path `m/44'/0/0/0/0`. -/
theorem serializePathv1_spec_hardened :
    RoundTrips (itemsFrom ⟨44, by decide, true⟩) ∧
      WroteDigits (pathText (itemsFrom ⟨44, by decide, true⟩)) ([44, 0, 0, 128] ++ List.replicate 16 0) := by
  obtain ⟨hround, hwrote⟩ := serializePathv1_spec (itemsFrom ⟨44, by decide, true⟩) rfl
  exact ⟨hround.2 (by decide), (hwrote _ _ (by decide +kernel)).2 (isDecimal_pathText _)⟩

/-- The path `m/134217728/0/0/0/0` comes back with its first component hardened. And a first component `-1'` is written as the
largest number that is not hardened. -/
theorem not_serializePathv1_spec :
    ¬(∀ items : List PathItem, items.length = 5 → RoundTrips items) ∧
      ¬∀ path buf, serializePathv1 path = .ok buf → WroteDigits path buf := by
  constructor
  · intro h
    have hback : (serializePathv1 (ecma "m/134217728/0/0/0/0") >>= printBIP44Path) = .ok (ecma "m/134217728'/0/0/0/0") := by
      decide +kernel
    have htext : pathText (itemsFrom ⟨134217728, by decide, false⟩) = ecma "m/134217728/0/0/0/0" := by decide +kernel
    have hsame := h (itemsFrom ⟨134217728, by decide, false⟩) rfl
    rw [RoundTrips, htext, hback] at hsame
    exact absurd hsame (by decide +kernel)
  · intro h
    have hwrote := h (ecma "m/" ++ ecma "-1'/0/0/0/0") ([255, 255, 255, 127] ++ List.replicate 16 0) (by decide +kernel)
    have hhead := head_of_isDecimal (isDecimal_of_wroteDigits hwrote (ecma "-1'") (by decide +kernel))
    exact absurd hhead (by decide)

end LedgerArweave
