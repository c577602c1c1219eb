import Stencil.Entries
import Stencil.Proofs.Lists

/-!
# Entries as finite maps

A list of entries with distinct keys is a finite map, and `List.lookup` reads it: an entry is in
the list exactly when its value is found under its key (`lookup_eq_some_iff_mem`). The keys under
which something is found are those of the list, distinct or not (`lookup_isSome_eq`).
-/

namespace Stencil.Entries

variable {α β : Type}

/-- Something is found under the keys of the entries and under no others. -/
theorem lookup_isSome_eq (entries : List (String × α)) (key : String) :
    (entries.lookup key).isSome = decide (key ∈ entries.map Prod.fst) := by
  induction entries with
  | nil => rfl
  | cons entry rest ih =>
    obtain ⟨k, v⟩ := entry
    by_cases h : key = k
    · subst h
      simp
    · have hne : (key == k) = false := by simp [h]
      simp [List.lookup_cons, hne, ih, h]

theorem mem_of_lookup_eq_some {κ : Type} [BEq κ] [LawfulBEq κ] {entries : List (κ × α)} {key : κ}
    {value : α} (h : entries.lookup key = some value) : (key, value) ∈ entries := by
  obtain ⟨before, after, rfl, -⟩ := List.lookup_eq_some_iff.mp h
  exact List.mem_append_right _ List.mem_cons_self

/-- **Entries with distinct keys are a map**: each of them is found under its key. -/
theorem lookup_eq_some_iff_mem {κ : Type} [BEq κ] [LawfulBEq κ] {entries : List (κ × α)}
    (distinct : (entries.map Prod.fst).Nodup) {key : κ} {value : α} :
    entries.lookup key = some value ↔ (key, value) ∈ entries := by
  refine ⟨mem_of_lookup_eq_some, fun hmem => ?_⟩
  induction entries with
  | nil => exact absurd hmem List.not_mem_nil
  | cons entry rest ih =>
    rw [List.map_cons, List.nodup_cons] at distinct
    rcases List.mem_cons.mp hmem with rfl | hrest
    · exact List.lookup_cons_self
    · -- the key is not the first one, which is not among the others
      have hne : key ≠ entry.1 := by
        rintro rfl
        exact distinct.1 (List.mem_map.mpr ⟨_, hrest, rfl⟩)
      have hbeq : (key == entry.1) = false := by simp [hne]
      rw [List.lookup_cons, hbeq]
      exact ih distinct.2 hrest

theorem eq_of_mem {entries : List (String × α)} (distinct : (entries.map Prod.fst).Nodup)
    {key : String} {a b : α} (ha : (key, a) ∈ entries) (hb : (key, b) ∈ entries) : a = b := by
  have hlookup := (lookup_eq_some_iff_mem distinct).mpr ha
  rw [(lookup_eq_some_iff_mem distinct).mpr hb] at hlookup
  exact (Option.some.inj hlookup).symm

/-- A look-up that compares with the first key in the other direction. -/
theorem lookup_cons_eq_ite (key k : String) (value : α) (rest : List (String × α)) :
    ((k, value) :: rest).lookup key = if k = key then some value else rest.lookup key := by
  by_cases h : k = key
  · subst h
    rw [if_pos rfl, List.lookup_cons_self]
  · have hbeq : (key == k) = false := by simp [Ne.symm h]
    rw [if_neg h, List.lookup_cons, hbeq]

theorem lookup_map_values {κ : Type} [BEq κ] (f : α → β) (entries : List (κ × α)) (key : κ) :
    (entries.map fun entry => (entry.1, f entry.2)).lookup key = (entries.lookup key).map f := by
  induction entries with
  | nil => rfl
  | cons entry rest ih =>
    obtain ⟨k, v⟩ := entry
    rw [List.map_cons, List.lookup_cons, List.lookup_cons]
    cases key == k with
    | true => rfl
    | false => exact ih

/-! ### Putting in -/

theorem mem_insert {key : String} {value : α} {entries : List (String × α)} {entry : String × α}
    (h : entry ∈ insert key value entries) : entry = (key, value) ∨ entry ∈ entries := by
  induction entries with
  | nil => exact Or.inl (List.mem_singleton.mp h)
  | cons first rest ih =>
    obtain ⟨k, v⟩ := first
    rw [insert] at h
    split at h
    · exact (List.mem_cons.mp h).imp_right (List.mem_cons_of_mem _)
    · rcases List.mem_cons.mp h with rfl | h
      · exact Or.inr List.mem_cons_self
      · exact (ih h).imp_right (List.mem_cons_of_mem _)

/-- **The keys stay where they are**, and a new one comes behind them. -/
theorem map_fst_insert (key : String) (value : α) (entries : List (String × α)) :
    (insert key value entries).map Prod.fst =
      if key ∈ entries.map Prod.fst then entries.map Prod.fst
      else entries.map Prod.fst ++ [key] := by
  induction entries with
  | nil => rfl
  | cons first rest ih =>
    obtain ⟨k, v⟩ := first
    by_cases hk : k = key
    · subst hk
      simp [insert]
    · rw [insert, if_neg hk, List.map_cons, ih, List.map_cons]
      simp only [List.mem_cons, Ne.symm hk, false_or]
      split
      · rfl
      · rfl

theorem nodup_keys_insert {key : String} {value : α} {entries : List (String × α)}
    (distinct : (entries.map Prod.fst).Nodup) :
    ((insert key value entries).map Prod.fst).Nodup := by
  rw [map_fst_insert]
  split
  · exact distinct
  · next hfree =>
    rw [← List.concat_eq_append]
    exact distinct.concat hfree

theorem ofPairs_concat (pairs : List (String × α)) (pair : String × α) :
    ofPairs (pairs ++ [pair]) = insert pair.1 pair.2 (ofPairs pairs) := by
  rw [ofPairs, List.foldl_append, List.foldl_cons, List.foldl_nil, ofPairs]

theorem mem_of_mem_ofPairs {pairs : List (String × α)} {entry : String × α}
    (h : entry ∈ ofPairs pairs) : entry ∈ pairs := by
  induction pairs using List.reverseRecOn with
  | nil => exact h
  | append_singleton rest pair ih =>
    rw [ofPairs_concat] at h
    rcases mem_insert h with rfl | h
    · exact List.mem_append_right _ (List.mem_singleton_self _)
    · exact List.mem_append_left _ (ih h)

theorem nodup_keys_ofPairs (pairs : List (String × α)) :
    ((ofPairs pairs).map Prod.fst).Nodup := by
  induction pairs using List.reverseRecOn with
  | nil => exact List.nodup_nil
  | append_singleton rest pair ih =>
    rw [ofPairs_concat]
    exact nodup_keys_insert ih

/-- **The keys of entries from pairs** stand where they first stood among the pairs. -/
theorem map_fst_ofPairs (pairs : List (String × α)) :
    (ofPairs pairs).map Prod.fst = (pairs.map Prod.fst).eraseDups := by
  induction pairs using List.reverseRecOn with
  | nil => rfl
  | append_singleton rest pair ih =>
    rw [ofPairs_concat, map_fst_insert, ih, List.map_append, List.map_singleton,
      Lists.eraseDups_concat]
    simp only [List.mem_eraseDups]

/-- **The last value counts** of those that are given for a key. -/
theorem lookup_ofPairs (pairs : List (String × α)) (key : String) :
    (ofPairs pairs).lookup key = pairs.reverse.lookup key := by
  induction pairs using List.reverseRecOn with
  | nil => rfl
  | append_singleton rest pair ih =>
    rw [ofPairs_concat, List.reverse_append, List.reverse_singleton, List.singleton_append,
      lookup_cons_eq_ite, ← ih]
    by_cases h : pair.1 = key
    · subst h
      rw [if_pos rfl, lookup_insert_self]
    · rw [if_neg h, lookup_insert_of_ne (Ne.symm h)]

/-- To put a value under a key leaves the entries under all other keys as they are. -/
theorem filter_insert_of_ne (key : String) (value : α) (entries : List (String × α)) :
    (insert key value entries).filter (fun entry => entry.1 ≠ key) =
      entries.filter fun entry => entry.1 ≠ key := by
  induction entries with
  | nil => simp [insert]
  | cons first rest ih =>
    obtain ⟨k, v⟩ := first
    by_cases hk : k = key
    · simp [insert, hk]
    · simp only [insert, if_neg hk, List.filter_cons, ih]

/-! ### Sums over entries -/

/-- A sum over entries with distinct keys is a sum over their keys. -/
theorem sum_map_eq_sum_keys {entries : List (String × α)}
    (distinct : (entries.map Prod.fst).Nodup) (f : String → α → Nat) :
    (entries.map fun entry => f entry.1 entry.2).sum =
      ((entries.map Prod.fst).map fun key => ((entries.lookup key).map (f key)).getD 0).sum := by
  rw [List.map_map]
  refine congrArg List.sum (List.map_congr_left fun entry hentry => ?_)
  have hlookup : entries.lookup entry.1 = some entry.2 :=
    (lookup_eq_some_iff_mem distinct).mpr hentry
  rw [Function.comp_apply, hlookup]
  rfl

/-- **A sum over entries does not depend on their order.** -/
theorem sum_map_eq_of_perm {entries : List (String × α)} {others : List (String × β)}
    (distinct : (entries.map Prod.fst).Nodup)
    (hperm : (entries.map Prod.fst).Perm (others.map Prod.fst)) {f : String → α → Nat}
    {g : String → β → Nat}
    (h : ∀ key, ((entries.lookup key).map (f key)).getD 0 =
      ((others.lookup key).map (g key)).getD 0) :
    (entries.map fun entry => f entry.1 entry.2).sum =
      (others.map fun entry => g entry.1 entry.2).sum := by
  calc (entries.map fun entry => f entry.1 entry.2).sum
      = ((entries.map Prod.fst).map fun key => ((entries.lookup key).map (f key)).getD 0).sum :=
        sum_map_eq_sum_keys distinct f
    _ = ((entries.map Prod.fst).map fun key => ((others.lookup key).map (g key)).getD 0).sum := by
        rw [funext h]
    _ = ((others.map Prod.fst).map fun key => ((others.lookup key).map (g key)).getD 0).sum :=
        (hperm.map _).sum_nat
    _ = (others.map fun entry => g entry.1 entry.2).sum :=
        (sum_map_eq_sum_keys (hperm.nodup_iff.mp distinct) g).symm

end Stencil.Entries
