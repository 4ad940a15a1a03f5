import LedgerArweave.Lib.Bytes
import Mathlib.Data.List.Induction

/-!
# Deep hash

The hash of a tree whose leaves are byte strings and whose nodes are lists: a leaf is hashed with its length, a list is folded
from the hash of its length. The hash function is any function to `n` bytes. Both kinds of node start from the hash of a tag
that names the kind and the length, which is what keeps the trees apart: two trees with one deep hash are the same tree, or two
different strings that were hashed on the way have the same hash (`deepHash_binding`).
-/

namespace Lib

/-- A tree with byte strings at the leaves. -/
inductive Chunk where
  | blob (b : List UInt8)
  | list (l : List Chunk)

variable {n : Nat}

/-- The hash of a tag: the name of a kind of node and a length. -/
def tagDigest (H : List UInt8 → ByteArr n) (name : String) (len : Nat) : ByteArr n := H (ascii name ++ decimal len)

/-- The hash of a byte string. -/
def blobDigest (H : List UInt8 → ByteArr n) (b : List UInt8) : ByteArr n :=
  H ((tagDigest H "blob" b.length).1 ++ (H b).1)

mutual

/-- The deep hash of a tree. -/
def deepHash (H : List UInt8 → ByteArr n) : Chunk → ByteArr n
  | .blob b => blobDigest H b
  | .list l => deepHashList H (tagDigest H "list" l.length) l

/-- The deep hash of the members of a list, folded from an accumulator. -/
def deepHashList (H : List UInt8 → ByteArr n) (acc : ByteArr n) : List Chunk → ByteArr n
  | [] => acc
  | x :: xs => deepHashList H (H (acc.1 ++ (deepHash H x).1)) xs

end

/-- The members of a list are folded from the left. -/
theorem deepHashList_eq_foldl (H : List UInt8 → ByteArr n) (acc : ByteArr n) (l : List Chunk) :
    deepHashList H acc l = l.foldl (fun acc x => H (acc.1 ++ (deepHash H x).1)) acc := by
  induction l generalizing acc with
  | nil => rw [deepHashList, List.foldl_nil]
  | cons x xs ih => rw [deepHashList, List.foldl_cons, ih]

/-! ## What is hashed -/

mutual

/-- The byte strings that are hashed on the way to the deep hash of a tree. -/
def hashedStrings (H : List UInt8 → ByteArr n) : Chunk → List (List UInt8)
  | .blob b => [ascii "blob" ++ decimal b.length, b, (tagDigest H "blob" b.length).1 ++ (H b).1]
  | .list l => (ascii "list" ++ decimal l.length) :: hashedInList H (tagDigest H "list" l.length) l

/-- The byte strings that are hashed while the members of a list are folded from an accumulator. -/
def hashedInList (H : List UInt8 → ByteArr n) (acc : ByteArr n) : List Chunk → List (List UInt8)
  | [] => []
  | x :: xs =>
    hashedStrings H x ++ (acc.1 ++ (deepHash H x).1) :: hashedInList H (H (acc.1 ++ (deepHash H x).1)) xs

end

/-- Among two lists of strings, a string of the one and a different string of the other have the same hash. -/
def Collide (H : List UInt8 → ByteArr n) (as bs : List (List UInt8)) : Prop := ∃ a ∈ as, ∃ b ∈ bs, a ≠ b ∧ H a = H b

/-- The tags of a tree are shorter than two hashes, so that no tag is two hashes in a row. -/
inductive Chunk.TagsShort (n : Nat) : Chunk → Prop where
  | blob {b : List UInt8} (h : (ascii "blob" ++ decimal b.length).length < n + n) : TagsShort n (.blob b)
  | list {l : List Chunk} (h : (ascii "list" ++ decimal l.length).length < n + n) (hl : ∀ x ∈ l, TagsShort n x) :
      TagsShort n (.list l)

section

variable {H : List UInt8 → ByteArr n} {as as' bs bs' : List (List UInt8)}

theorem Collide.mono (h : Collide H as bs) (ha : as ⊆ as') (hb : bs ⊆ bs') : Collide H as' bs' := by
  obtain ⟨a, hma, b, hmb, hne, hH⟩ := h
  exact ⟨a, ha hma, b, hb hmb, hne, hH⟩

theorem Collide.symm (h : Collide H as bs) : Collide H bs as := by
  obtain ⟨a, hma, b, hmb, hne, hH⟩ := h
  exact ⟨b, hmb, a, hma, hne.symm, hH.symm⟩

theorem deepHashList_concat (acc : ByteArr n) (l : List Chunk) (x : Chunk) :
    deepHashList H acc (l ++ [x]) = H ((deepHashList H acc l).1 ++ (deepHash H x).1) := by
  rw [deepHashList_eq_foldl, deepHashList_eq_foldl, List.foldl_concat]

theorem hashedInList_concat (acc : ByteArr n) (l : List Chunk) (x : Chunk) :
    hashedInList H acc (l ++ [x]) =
      hashedInList H acc l ++ (hashedStrings H x ++ [(deepHashList H acc l).1 ++ (deepHash H x).1]) := by
  induction l generalizing acc with
  | nil => rw [List.nil_append, hashedInList, hashedInList, hashedInList, deepHashList, List.nil_append]
  | cons y ys ih =>
    rw [List.cons_append, hashedInList, ih, hashedInList, deepHashList, List.append_assoc, List.cons_append]

/-- The two hashes in a row that a fold hashed last. -/
theorem pair_mem_concat (acc : ByteArr n) (l : List Chunk) (x : Chunk) :
    (deepHashList H acc l).1 ++ (deepHash H x).1 ∈ hashedInList H acc (l ++ [x]) := by
  rw [hashedInList_concat]
  simp

/-- Two hashes in a row are taken apart. -/
theorem pair_inj {a b c d : ByteArr n} (h : a.1 ++ b.1 = c.1 ++ d.1) : a = c ∧ b = d := by
  obtain ⟨h1, h2⟩ := List.append_inj h (a.2.trans c.2.symm)
  exact ⟨Subtype.ext h1, Subtype.ext h2⟩

/-- A string shorter than two hashes is not two hashes in a row. -/
theorem ne_pair {a : List UInt8} (ha : a.length < n + n) (c d : ByteArr n) : a ≠ c.1 ++ d.1 := by
  intro h
  have hlen := congrArg List.length h
  rw [List.length_append, c.2, d.2] at hlen
  omega

/-- Folds from the hashes of two short strings that end in the same hash: they start from the same string and fold the same
members, or a collision was met. The induction is on the first list from its end, which is where a fold hashed last. -/
theorem deepHashList_binding {a b : List UInt8} (ha : a.length < n + n) (hb : b.length < n + n) (l : List Chunk) :
    ∀ m, (∀ x ∈ l, ∀ y ∈ m, deepHash H x = deepHash H y → x = y ∨ Collide H (hashedStrings H x) (hashedStrings H y)) →
      deepHashList H (H a) l = deepHashList H (H b) m →
      (a = b ∧ l = m) ∨ Collide H (a :: hashedInList H (H a) l) (b :: hashedInList H (H b) m) := by
  induction l using List.reverseRecOn with
  | nil =>
    intro m hmem heq
    rcases List.eq_nil_or_concat m with rfl | ⟨m, y, rfl⟩
    · by_cases hab : a = b
      · exact Or.inl ⟨hab, rfl⟩
      · exact Or.inr ⟨a, by simp, b, by simp, hab, heq⟩
    · rw [List.concat_eq_append, deepHashList_concat] at heq
      rw [List.concat_eq_append]
      exact Or.inr ⟨a, by simp, _, List.mem_cons_of_mem _ (pair_mem_concat _ _ _), ne_pair ha _ _, heq⟩
  | append_singleton l x ih =>
    intro m hmem heq
    rw [deepHashList_concat] at heq
    rcases List.eq_nil_or_concat m with rfl | ⟨m, y, rfl⟩
    · exact Or.inr ⟨_, List.mem_cons_of_mem _ (pair_mem_concat _ _ _), b, by simp, (ne_pair hb _ _).symm, heq⟩
    · rw [List.concat_eq_append] at heq hmem ⊢
      rw [deepHashList_concat] at heq
      by_cases hpair : (deepHashList H (H a) l).1 ++ (deepHash H x).1 = (deepHashList H (H b) m).1 ++ (deepHash H y).1
      · obtain ⟨hacc, hxy⟩ := pair_inj hpair
        have hfold := ih m (fun x hx y hy => hmem x (List.mem_append_left _ hx) y (List.mem_append_left _ hy)) hacc
        have hlast := hmem x (by simp) y (by simp) hxy
        rcases hfold with ⟨hab, hlm⟩ | hcol
        · rcases hlast with hxy | hcol
          · exact Or.inl ⟨hab, by rw [hlm, hxy]⟩
          · refine Or.inr (hcol.mono ?_ ?_) <;> intro z hz <;> simp [hashedInList_concat, hz]
        · refine Or.inr (hcol.mono ?_ ?_) <;> rw [hashedInList_concat] <;>
            exact List.cons_subset_cons _ (List.subset_append_left _ _)
      · exact Or.inr ⟨_, List.mem_cons_of_mem _ (pair_mem_concat _ _ _), _, List.mem_cons_of_mem _ (pair_mem_concat _ _ _),
          hpair, heq⟩

/-- The tags of the two kinds of node are different strings. -/
theorem blobTag_ne_listTag (s t : List UInt8) : ascii "blob" ++ s ≠ ascii "list" ++ t := by
  intro h
  exact absurd (List.append_inj h rfl).1 (by decide)

/-- A leaf and a list with the same deep hash: a collision was met. -/
theorem collide_of_blob_list {b : List UInt8} {m : List Chunk} (hb : (Chunk.blob b).TagsShort n)
    (hm : (Chunk.list m).TagsShort n) (heq : deepHash H (.blob b) = deepHash H (.list m)) :
    Collide H (hashedStrings H (.blob b)) (hashedStrings H (.list m)) := by
  cases hb with
  | blob hblob =>
  cases hm with
  | list hlist =>
  rw [deepHash, deepHash, blobDigest] at heq
  rw [hashedStrings, hashedStrings]
  rcases List.eq_nil_or_concat m with rfl | ⟨m, y, rfl⟩
  · exact ⟨_, by simp, _, by simp, (ne_pair hlist _ _).symm, heq⟩
  · rw [List.concat_eq_append] at heq hlist ⊢
    rw [deepHashList_concat] at heq
    by_cases hpair : (tagDigest H "blob" b.length).1 ++ (H b).1 =
        (deepHashList H (tagDigest H "list" (m ++ [y]).length) m).1 ++ (deepHash H y).1
    · -- the tag of the leaf has the hash the fold had before its last member
      have hacc := (pair_inj hpair).1
      generalize (m ++ [y]).length = k at hacc hlist hpair ⊢
      rcases List.eq_nil_or_concat m with rfl | ⟨m, z, rfl⟩
      · exact ⟨_, List.mem_cons_self .., _, List.mem_cons_self .., blobTag_ne_listTag _ _, hacc⟩
      · rw [List.concat_eq_append] at hacc ⊢
        rw [deepHashList_concat] at hacc
        refine ⟨_, List.mem_cons_self .., _, ?_, ne_pair hblob _ _, hacc⟩
        rw [hashedInList_concat]
        exact List.mem_cons_of_mem _ (List.mem_append_left _ (pair_mem_concat _ _ _))
    · exact ⟨_, by simp, _, List.mem_cons_of_mem _ (pair_mem_concat _ _ _), hpair, heq⟩

/-- Two trees with one deep hash are the same tree, or two different strings hashed on the way have the same hash. -/
theorem deepHash_binding {s : Chunk} (hs : s.TagsShort n) :
    ∀ t, t.TagsShort n → deepHash H s = deepHash H t → s = t ∨ Collide H (hashedStrings H s) (hashedStrings H t) := by
  induction hs with
  | @blob b hb =>
    intro t ht heq
    cases t with
    | list m => exact Or.inr (collide_of_blob_list (.blob hb) ht heq)
    | blob c =>
      rw [deepHash, deepHash, blobDigest, blobDigest] at heq
      rw [hashedStrings, hashedStrings]
      by_cases hpair : (tagDigest H "blob" b.length).1 ++ (H b).1 = (tagDigest H "blob" c.length).1 ++ (H c).1
      · by_cases hbc : b = c
        · exact Or.inl (by rw [hbc])
        · exact Or.inr ⟨b, by simp, c, by simp, hbc, (pair_inj hpair).2⟩
      · exact Or.inr ⟨_, by simp, _, by simp, hpair, heq⟩
  | @list l hl hmem ih =>
    intro t ht heq
    cases t with
    | blob c => exact Or.inr (collide_of_blob_list ht (.list hl hmem) heq.symm).symm
    | list m =>
      cases ht with
      | list hm hmem' =>
      rw [deepHash, deepHash] at heq
      rw [hashedStrings, hashedStrings]
      rcases deepHashList_binding hl hm l m (fun x hx y hy => ih x hx y (hmem' y hy)) heq with ⟨-, hlm⟩ | hcol
      · exact Or.inl (by rw [hlm])
      · exact Or.inr hcol

end

end Lib
