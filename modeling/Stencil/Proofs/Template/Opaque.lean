import Stencil.Proofs.Template.Indistinct
import Stencil.Proofs.Value.Shape

/-!
# Texts in the data are opaque

What a template does with data depends on the shape of the data, that is on what is a text, a record
or a list and on the keys of the records. It does not depend on what the texts say.

* The rendering is one list of pieces for all texts: the texts are put in their places as they are,
  and nothing else is changed by them (`renderRecord_pieced`). In particular a text is never read
  for placeholders and its lines are not moved.
* Values of one shape are indistinct for a template that does not look at texts
  (`indistinct_fill`), so the check ends in the same way and the estimate is the same.

This holds of every template, whether or not it can be made.
-/

namespace Stencil.Template

variable {Leaf : Type}

/-! ### Renderings -/

theorem scalarAt_pieced (shape : Shape Leaf) (key : String) :
    Pieced shape.HasLeaf fun σ => (shape.fill σ).scalarAt key := by
  simp only [Value.scalarAt, Shape.field?_fill]
  cases hfound : shape.field? key with
  | none => exact .fixed ""
  | some found =>
    cases found with
    | text leaf => exact .leaf (.of_field? hfound (.text leaf))
    | null | record | list => exact .fixed ""

theorem renderRecords_pieced {t : Template} {column : Nat}
    (h : ∀ shape : Shape Leaf, Pieced shape.HasLeaf fun σ => t.renderRecord column (shape.fill σ))
    (shapes : List (Shape Leaf)) :
    Pieced (fun leaf => ∃ s ∈ shapes, s.HasLeaf leaf) fun σ =>
      t.renderRecords column (shapes.map (Shape.fill σ)) := by
  simp only [renderRecords, List.map_map, Function.comp_def]
  exact .stackAt column fun s hs => (h s).mono fun leaf hleaf => ⟨s, hs, hleaf⟩

/-- **The rendering of a record is a fixed list of pieces**, whatever its texts are. -/
theorem renderRecord_pieced (t : Template) (column : Nat) (shape : Shape Leaf) :
    Pieced shape.HasLeaf fun σ => t.renderRecord column (shape.fill σ) := by
  induction t using Template.induction generalizing column shape with
  | node t ih =>
    simp only [renderRecord_eq]
    refine .join fun s _ => ?_
    -- which sections there are does not depend on the record
    cases s with
    | static text => exact .fixed text
    | dynamic key c => exact scalarAt_pieced shape key
    | inner key c =>
      simp only [Section.fill, Shape.recordsAt_fill]
      cases hi : t.inner? key with
      | none => exact .fixed ""
      | some i =>
        have hrecords := renderRecords_pieced
          (ih key i (Entries.mem_of_lookup_eq_some hi) c) (shape.recordsAt key)
        refine hrecords.mono fun leaf hleaf => ?_
        obtain ⟨r, hr, hleaf⟩ := hleaf
        exact .of_mem_recordsAt hr hleaf

theorem renderUnchecked_pieced (t : Template) (shape : Shape Leaf) :
    Pieced shape.HasLeaf fun σ => t.renderUnchecked (shape.fill σ) := by
  simp only [renderUnchecked, Shape.records_fill]
  cases hrecords : shape.records with
  | nil =>
    -- one record without fields, and so without leaves
    refine (renderRecord_pieced t 0 (.record [])).mono fun leaf hleaf => ?_
    cases hleaf with
    | field mem _ => exact absurd mem List.not_mem_nil
  | cons r rest =>
    refine (renderRecords_pieced (renderRecord_pieced t 0) (r :: rest)).mono fun leaf hleaf => ?_
    obtain ⟨s, hs, hleaf⟩ := hleaf
    rw [← hrecords] at hs
    exact .of_mem_records hs hleaf

/-! ### Checks and estimates -/

/-- **Values of one shape are indistinct** for a template that does not look at texts. -/
theorem indistinct_fill (t : Template) (shape : Shape Leaf) (σ τ : Leaf → String) :
    t.Indistinct (fun _ => ()) (shape.fill σ) (shape.fill τ) := by
  induction t using Template.induction generalizing shape with
  | node t ih =>
    refine indistinct_iff.mpr ⟨fun key _ _ => ?_, fun key i hmem => ?_⟩
    · simp only [Shape.field?_fill, Option.map_map, Function.comp_def]
    · rw [Shape.recordsAt_fill, Shape.recordsAt_fill, List.forall₂_map_left_iff,
        List.forall₂_map_right_iff]
      exact List.forall₂_same.mpr fun s _ => ih key i hmem s

theorem indistinct_records_fill (t : Template) (shape : Shape Leaf) (σ τ : Leaf → String) :
    List.Forall₂ (t.Indistinct fun _ => ()) (shape.fill σ).records (shape.fill τ).records := by
  rw [Shape.records_fill, Shape.records_fill, List.forall₂_map_left_iff,
    List.forall₂_map_right_iff]
  exact List.forall₂_same.mpr fun s _ => t.indistinct_fill s σ τ

/-- **Texts are opaque**, to every template and in data of every shape. There is one list of pieces,
fixed texts and leaves of the shape, that is the rendering for all texts of the leaves, each text
standing where its leaf is, as it is. And what the check finds and what is estimated are the same
for all texts. -/
theorem texts_opaque (t : Template) (shape : Shape Leaf) :
    (∃ pieces : List (Piece Leaf), (∀ leaf, .leaf leaf ∈ pieces → shape.HasLeaf leaf) ∧
      ∀ σ, t.renderUnchecked (shape.fill σ) = Piece.join σ pieces) ∧
    ∀ σ τ, t.check (shape.fill σ) = t.check (shape.fill τ) ∧
      t.estimateData (shape.fill σ) = t.estimateData (shape.fill τ) :=
  ⟨t.renderUnchecked_pieced shape, fun σ τ =>
    check_eq_and_estimateData_eq (t.indistinct_records_fill shape σ τ)⟩

end Stencil.Template
