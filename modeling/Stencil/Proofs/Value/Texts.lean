import Stencil.Proofs.Entries
import Stencil.Template.Render

/-!
# The texts of a value

The texts of a value are those that it holds at any depth (`Value.texts`). What is found in a value
has no other texts than the value itself (`Value.texts_subset_of_mem_recordsAt`), and what a dynamic
placeholder gives is one of them, or nothing (`Value.scalarAt_cases`).

A value is in one line when none of its texts has a newline (`Value.OneLine`).
-/

namespace Stencil.Value

mutual

/-- The texts of a value, at any depth. -/
def texts : Value → List String
  | null => []
  | text s => [s]
  | record fields => textsFields fields
  | list items => textsItems items

def textsFields : List (String × Value) → List String
  | [] => []
  | (_, v) :: rest => v.texts ++ textsFields rest

def textsItems : List Value → List String
  | [] => []
  | v :: rest => v.texts ++ textsItems rest

end

theorem textsFields_eq_flatMap (fields : List (String × Value)) :
    textsFields fields = fields.flatMap fun field => field.2.texts := by
  induction fields with
  | nil => rw [textsFields, List.flatMap_nil]
  | cons field rest ih => rw [textsFields, ih, List.flatMap_cons]

theorem textsItems_eq_flatMap (items : List Value) : textsItems items = items.flatMap texts := by
  induction items with
  | nil => rw [textsItems, List.flatMap_nil]
  | cons v rest ih => rw [textsItems, ih, List.flatMap_cons]

variable {v w : Value} {key : String}

/-! ### The texts of what is found -/

theorem texts_subset_of_field? (h : v.field? key = some w) : w.texts ⊆ v.texts := by
  cases v with
  | record fields =>
    intro s hs
    rw [texts, textsFields_eq_flatMap]
    exact List.mem_flatMap.mpr ⟨(key, w), Entries.mem_of_lookup_eq_some h, hs⟩
  | null | text | list =>
    -- a unit without fields shows itself
    simp only [field?, Option.ite_none_right_eq_some, Option.some.injEq] at h
    rw [h.2]
    exact List.Subset.refl _

theorem texts_subset_of_mem_records (h : w ∈ v.records) : w.texts ⊆ v.texts := by
  cases v with
  | null => exact absurd h List.not_mem_nil
  | list items =>
    intro s hs
    rw [texts, textsItems_eq_flatMap]
    exact List.mem_flatMap.mpr ⟨w, h, hs⟩
  | text | record =>
    obtain rfl := List.mem_singleton.mp h
    exact List.Subset.refl _

theorem texts_subset_of_mem_recordsAt (h : w ∈ v.recordsAt key) : w.texts ⊆ v.texts := by
  unfold recordsAt at h
  split at h
  · next found hfound =>
    exact List.Subset.trans (texts_subset_of_mem_records h) (texts_subset_of_field? hfound)
  · exact absurd h List.not_mem_nil

theorem scalarAt_cases (v : Value) (key : String) :
    v.scalarAt key = "" ∨ v.scalarAt key ∈ v.texts := by
  unfold scalarAt
  cases hfound : v.field? key with
  | none => exact Or.inl rfl
  | some w =>
    cases w with
    | null | record | list => exact Or.inl rfl
    | text s =>
      have hs : s ∈ (text s).texts := by
        rw [texts]
        exact List.mem_singleton_self s
      exact Or.inr (texts_subset_of_field? hfound hs)

/-! ### Values in one line -/

/-- No text of a value has a newline. -/
def OneLine (v : Value) : Prop :=
  ∀ s ∈ v.texts, '\n' ∉ s.toList

instance (v : Value) : Decidable v.OneLine :=
  inferInstanceAs (Decidable (∀ s ∈ v.texts, '\n' ∉ s.toList))

theorem OneLine.of_mem_recordsAt (h : v.OneLine) (hw : w ∈ v.recordsAt key) : w.OneLine :=
  fun s hs => h s (texts_subset_of_mem_recordsAt hw hs)

theorem OneLine.notMem_scalarAt (h : v.OneLine) (key : String) :
    '\n' ∉ (v.scalarAt key).toList := by
  rcases v.scalarAt_cases key with hempty | hmem
  · rw [hempty]
    exact List.not_mem_nil
  · exact h _ hmem

end Stencil.Value
