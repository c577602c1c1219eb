/-!
# Columns

The columns for which a template has sections are a set of numbers, kept as a list in ascending
order without repetition (`Columns.pairwise_ofList`).
-/

namespace Stencil.Columns

/-- Puts a column into ascending columns, unless it is there. -/
def insert (column : Nat) : List Nat → List Nat
  | [] => [column]
  | c :: rest =>
    if column < c then column :: c :: rest
    else if column = c then c :: rest
    else c :: insert column rest

/-- The columns of a list, in ascending order. -/
def ofList (columns : List Nat) : List Nat :=
  columns.foldr insert []

@[simp] theorem mem_insert {column c : Nat} {columns : List Nat} :
    c ∈ insert column columns ↔ c = column ∨ c ∈ columns := by
  induction columns with
  | nil => simp [insert]
  | cons d rest ih =>
    simp only [insert]
    split
    · simp
    · split
      · next h => simp [h]
      · simp [ih, or_left_comm]

@[simp] theorem mem_ofList {c : Nat} {columns : List Nat} : c ∈ ofList columns ↔ c ∈ columns := by
  induction columns with
  | nil => simp [ofList]
  | cons d rest ih =>
    rw [ofList, List.foldr_cons, mem_insert, List.mem_cons, ← ih, ofList]

theorem pairwise_insert {column : Nat} {columns : List Nat} (h : columns.Pairwise (· < ·)) :
    (insert column columns).Pairwise (· < ·) := by
  induction columns with
  | nil => simp [insert]
  | cons d rest ih =>
    simp only [insert]
    rw [List.pairwise_cons] at h
    split
    · next hlt =>
      refine List.pairwise_cons.mpr ⟨?_, List.pairwise_cons.mpr h⟩
      intro c hc
      rcases List.mem_cons.mp hc with rfl | hc
      · exact hlt
      · exact Nat.lt_trans hlt (h.1 c hc)
    · split
      · exact List.pairwise_cons.mpr h
      · refine List.pairwise_cons.mpr ⟨?_, ih h.2⟩
        intro c hc
        rcases mem_insert.mp hc with rfl | hc
        · omega
        · exact h.1 c hc

/-- Columns ascend and do not repeat. -/
theorem pairwise_ofList (columns : List Nat) : (ofList columns).Pairwise (· < ·) := by
  induction columns with
  | nil => simp [ofList]
  | cons d rest ih => exact pairwise_insert ih

example : ofList [4, 0, 2, 4] = [0, 2, 4] := by decide

end Stencil.Columns
