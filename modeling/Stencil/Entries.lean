/-!
# Entries

**Entries** are pairs of a key and a value in an order that matters: the order in which fields
were written, or in which templates were registered. They are plain lists of pairs, looked up
with `List.lookup`, so that a tree whose nodes hold entries is an ordinary inductive type.

* `Entries.insert` keeps a key at the place where it first stood and takes the last value.
* `Entries.insertSorted` keeps keys in ascending order of their characters, which is also the
  order of their UTF-8 bytes.
-/

namespace Stencil.Entries

variable {α : Type}

/-- Puts a value under a key: in the place of the value it had, else at the end. -/
def insert (key : String) (value : α) : List (String × α) → List (String × α)
  | [] => [(key, value)]
  | (k, v) :: rest => if k = key then (key, value) :: rest else (k, v) :: insert key value rest

/-- Puts a value under a key: in the place of the value it had, else before the first greater
key. -/
def insertSorted (key : String) (value : α) : List (String × α) → List (String × α)
  | [] => [(key, value)]
  | (k, v) :: rest =>
    if k = key then (key, value) :: rest
    else if key < k then (key, value) :: (k, v) :: rest
    else (k, v) :: insertSorted key value rest

/-- Entries from pairs in the order of their first appearance; a later value replaces an
earlier one. -/
def ofPairs (pairs : List (String × α)) : List (String × α) :=
  pairs.foldl (fun entries pair => insert pair.1 pair.2 entries) []

/-- Entries from pairs in ascending order of keys; a later value replaces an earlier one. -/
def sortedOfPairs (pairs : List (String × α)) : List (String × α) :=
  pairs.foldl (fun entries pair => insertSorted pair.1 pair.2 entries) []

@[simp] theorem lookup_insert_self (key : String) (value : α) (entries : List (String × α)) :
    (insert key value entries).lookup key = some value := by
  induction entries with
  | nil => simp [insert]
  | cons entry rest ih =>
    obtain ⟨k, v⟩ := entry
    by_cases h : k = key
    · simp [insert, h]
    · have hne : (key == k) = false := by simp [Ne.symm h]
      simp [insert, h, List.lookup_cons, hne, ih]

theorem lookup_insert_of_ne {key other : String} (h : other ≠ key) (value : α)
    (entries : List (String × α)) :
    (insert key value entries).lookup other = entries.lookup other := by
  have hne : (other == key) = false := by simp [h]
  induction entries with
  | nil => simp [insert, List.lookup_cons, hne]
  | cons entry rest ih =>
    obtain ⟨k, v⟩ := entry
    by_cases hk : k = key
    · subst hk
      simp [insert, List.lookup_cons, hne]
    · simp [insert, hk, List.lookup_cons, ih]

example : ofPairs [("b", 1), ("a", 2), ("b", 3)] = [("b", 3), ("a", 2)] := by decide

example : sortedOfPairs [("b", 1), ("a", 2), ("b", 3)] = [("a", 2), ("b", 3)] := by decide

end Stencil.Entries
