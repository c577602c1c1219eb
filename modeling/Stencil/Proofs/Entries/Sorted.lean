import Mathlib.Data.List.Induction
import Mathlib.Data.List.Nodup
import Mathlib.Data.List.Perm.Subperm
import Stencil.Proofs.Entries

/-!
# Sorted entries

`Entries.sortedOfPairs` puts pairs into ascending order of their keys. If no key is given twice it
only rearranges them (`perm_sortedOfPairs`), so it leaves ascending entries as they are
(`sortedOfPairs_of_pairwise`) and nothing changes for a look-up (`lookup_sortedOfPairs`). There is
one way to put entries into ascending order: two lists of them have the same sorted entries exactly
when they are the same but for the order (`sortedOfPairs_eq_iff`).
-/

open scoped List

namespace Stencil.Entries

variable {α β : Type} {key : String} {value : α} {entries others pairs : List (String × α)}

/-! ### One more entry -/

theorem mem_insertSorted {entry : String × α} (h : entry ∈ insertSorted key value entries) :
    entry = (key, value) ∨ entry ∈ entries := by
  induction entries with
  | nil => exact Or.inl (List.mem_singleton.mp h)
  | cons first rest ih =>
    obtain ⟨k, v⟩ := first
    rw [insertSorted] at h
    split at h
    · exact (List.mem_cons.mp h).imp_right (List.mem_cons_of_mem _)
    · split at h
      · exact List.mem_cons.mp h
      · rcases List.mem_cons.mp h with rfl | h
        · exact Or.inr List.mem_cons_self
        · exact (ih h).imp_right (List.mem_cons_of_mem _)

/-- Entries in ascending order stay so. -/
theorem pairwise_insertSorted (h : (entries.map Prod.fst).Pairwise (· < ·)) :
    ((insertSorted key value entries).map Prod.fst).Pairwise (· < ·) := by
  induction entries with
  | nil => exact List.pairwise_singleton _ _
  | cons first rest ih =>
    obtain ⟨k, v⟩ := first
    obtain ⟨hfirst, hrest⟩ := List.pairwise_cons.mp h
    rw [insertSorted]
    split
    · next heq =>
      subst heq
      exact h
    · next hne =>
      split
      · next hlt =>
        refine List.pairwise_cons.mpr ⟨?_, h⟩
        intro k' hk'
        rcases List.mem_cons.mp hk' with rfl | hk'
        · exact hlt
        · exact String.lt_trans hlt (hfirst k' hk')
      · next hlt =>
        -- the key goes behind the first one
        have hbehind : k < key :=
          Classical.byContradiction fun hle =>
            hne (String.le_antisymm (String.not_lt.mp hlt) (String.not_lt.mp hle))
        refine List.pairwise_cons.mpr ⟨?_, ih hrest⟩
        intro k' hk'
        obtain ⟨entry, hentry, rfl⟩ := List.mem_map.mp hk'
        rcases mem_insertSorted hentry with rfl | hentry
        · exact hbehind
        · exact hfirst _ (List.mem_map.mpr ⟨entry, hentry, rfl⟩)

theorem perm_insertSorted (h : key ∉ entries.map Prod.fst) :
    (insertSorted key value entries).Perm ((key, value) :: entries) := by
  induction entries with
  | nil => exact .refl _
  | cons first rest ih =>
    obtain ⟨k, v⟩ := first
    rw [List.map_cons, List.mem_cons, not_or] at h
    rw [insertSorted, if_neg (Ne.symm h.1)]
    split
    · exact .refl _
    · exact ((ih h.2).cons _).trans (.swap _ _ _)

theorem insertSorted_map (f : α → β) (key : String) (value : α) (entries : List (String × α)) :
    insertSorted key (f value) (entries.map fun entry => (entry.1, f entry.2)) =
      (insertSorted key value entries).map fun entry => (entry.1, f entry.2) := by
  induction entries with
  | nil => rfl
  | cons first rest ih =>
    obtain ⟨k, v⟩ := first
    rw [List.map_cons, insertSorted, insertSorted, ih]
    split
    · rfl
    · split
      · rfl
      · rfl

/-! ### All entries -/

theorem sortedOfPairs_concat (pairs : List (String × α)) (pair : String × α) :
    sortedOfPairs (pairs ++ [pair]) = insertSorted pair.1 pair.2 (sortedOfPairs pairs) := by
  rw [sortedOfPairs, List.foldl_append, List.foldl_cons, List.foldl_nil, sortedOfPairs]

theorem mem_sortedOfPairs {entry : String × α} (h : entry ∈ sortedOfPairs pairs) :
    entry ∈ pairs := by
  induction pairs using List.reverseRecOn with
  | nil => exact h
  | append_singleton rest pair ih =>
    rw [sortedOfPairs_concat] at h
    rcases mem_insertSorted h with rfl | h
    · exact List.mem_append_right _ (List.mem_singleton_self _)
    · exact List.mem_append_left _ (ih h)

/-- **Sorted entries ascend**, and no key is among them twice. -/
theorem pairwise_sortedOfPairs (pairs : List (String × α)) :
    ((sortedOfPairs pairs).map Prod.fst).Pairwise (· < ·) := by
  induction pairs using List.reverseRecOn with
  | nil => exact List.Pairwise.nil
  | append_singleton rest pair ih =>
    rw [sortedOfPairs_concat]
    exact pairwise_insertSorted ih

theorem nodup_of_pairwise_lt {keys : List String} (h : keys.Pairwise (· < ·)) : keys.Nodup :=
  h.imp fun hlt heq => by
    rw [heq] at hlt
    exact String.lt_irrefl _ hlt

/-- **Sorting rearranges** entries with distinct keys, and does nothing else. -/
theorem perm_sortedOfPairs (distinct : (pairs.map Prod.fst).Nodup) :
    (sortedOfPairs pairs).Perm pairs := by
  induction pairs using List.reverseRecOn with
  | nil => exact .refl _
  | append_singleton rest pair ih =>
    rw [List.map_append, List.nodup_append] at distinct
    obtain ⟨hrest, -, hapart⟩ := distinct
    have hfree : pair.1 ∉ (sortedOfPairs rest).map Prod.fst := by
      intro hmem
      exact hapart _ (((ih hrest).map Prod.fst).mem_iff.mp hmem) _ (List.mem_singleton_self _) rfl
    rw [sortedOfPairs_concat]
    calc insertSorted pair.1 pair.2 (sortedOfPairs rest)
        ~ pair :: sortedOfPairs rest := perm_insertSorted hfree
      _ ~ pair :: rest := (ih hrest).cons pair
      _ ~ rest ++ [pair] := (List.perm_append_singleton pair rest).symm

/-- Ascending entries are known from their entries. -/
theorem eq_of_perm_of_pairwise (h : (entries.map Prod.fst).Pairwise (· < ·))
    (h' : (others.map Prod.fst).Pairwise (· < ·)) (hperm : entries.Perm others) :
    entries = others := by
  rw [List.pairwise_map] at h h'
  exact hperm.eq_of_pairwise (fun _ _ _ _ hlt hgt => absurd hgt (String.lt_asymm hlt)) h h'

/-- **Ascending entries are sorted already.** -/
theorem sortedOfPairs_of_pairwise (h : (pairs.map Prod.fst).Pairwise (· < ·)) :
    sortedOfPairs pairs = pairs :=
  eq_of_perm_of_pairwise (pairwise_sortedOfPairs pairs) h
    (perm_sortedOfPairs (nodup_of_pairwise_lt h))

/-- **Sorting forgets the order** of entries with distinct keys and nothing else. -/
theorem sortedOfPairs_eq_iff (distinct : (entries.map Prod.fst).Nodup)
    (distinct' : (others.map Prod.fst).Nodup) :
    sortedOfPairs entries = sortedOfPairs others ↔ entries.Perm others := by
  have hentries := perm_sortedOfPairs distinct
  have hothers := perm_sortedOfPairs distinct'
  refine ⟨?_, ?_⟩
  · intro h
    rw [h] at hentries
    exact hentries.symm.trans hothers
  · intro h
    exact eq_of_perm_of_pairwise (pairwise_sortedOfPairs _) (pairwise_sortedOfPairs _)
      (hentries.trans (h.trans hothers.symm))

theorem lookup_sortedOfPairs (distinct : (pairs.map Prod.fst).Nodup) (key : String) :
    (sortedOfPairs pairs).lookup key = pairs.lookup key := by
  ext value
  rw [lookup_eq_some_iff_mem distinct,
    lookup_eq_some_iff_mem (nodup_of_pairwise_lt (pairwise_sortedOfPairs pairs)),
    (perm_sortedOfPairs distinct).mem_iff]

theorem sortedOfPairs_map (f : α → β) (pairs : List (String × α)) :
    sortedOfPairs (pairs.map fun pair => (pair.1, f pair.2)) =
      (sortedOfPairs pairs).map fun pair => (pair.1, f pair.2) := by
  induction pairs using List.reverseRecOn with
  | nil => rfl
  | append_singleton rest pair ih =>
    rw [List.map_append, List.map_singleton, sortedOfPairs_concat, sortedOfPairs_concat, ih]
    exact insertSorted_map f pair.1 pair.2 _

/-- Of two lists of as many entries with distinct keys, one is the other rearranged if its entries
are among those of the other. -/
theorem perm_of_subset (distinct : (entries.map Prod.fst).Nodup)
    (hlength : others.length = entries.length) (h : entries ⊆ others) : entries.Perm others :=
  ((List.Nodup.of_map _ distinct).subperm h).perm_of_length_le (Nat.le_of_eq hlength)

end Stencil.Entries
