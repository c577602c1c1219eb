import Stencil.Proofs.Template.Indistinct
import Stencil.Proofs.Value.Serialization

/-!
# Templates and canonical values

A template does not see in which order the fields of a record are, so it does the same with a value
and with its canonical form: it checks both with the same outcome, gives both the same estimate, and
renders both to the same text, whatever is in the way of its keys.

With that, serialising a value and taking it back is a choice of one representative for all equal
values, which no template can tell from the value itself (`Value.reserialization`).
-/

namespace Stencil

namespace Value

variable {v : Value}

theorem Distinct.scalarAt_canonical (h : v.Distinct) (key : String) :
    v.canonical.scalarAt key = v.scalarAt key := by
  rw [scalarAt, scalarAt, h.field?_canonical]
  cases v.field? key with
  | none => rfl
  | some found => exact congrArg (Option.getD · "") (text?_canonical found)

end Value

namespace Template

variable {record data : Value}

/-- A record and its canonical form look the same to a template. -/
theorem indistinct_canonical (t : Template) (h : record.Distinct) :
    t.Indistinct Value.text? record.canonical record := by
  induction t using Template.induction generalizing record with
  | node t ih =>
    refine indistinct_iff.mpr ⟨fun key _ _ => ?_, fun key i hmem => ?_⟩
    · -- under a key is the canonical form of what was there, which has the same text
      have htext : Value.text? ∘ Value.canonical = Value.text? := funext Value.text?_canonical
      rw [h.field?_canonical, Option.map_map, htext]
    · rw [h.recordsAt_canonical, List.forall₂_map_left_iff]
      exact List.forall₂_same.mpr fun r hr => ih key i hmem (h.of_mem_recordsAt hr)

theorem forall₂_indistinct_canonical (t : Template) {records : List Value}
    (h : ∀ r ∈ records, r.Distinct) :
    List.Forall₂ (t.Indistinct Value.text?) (records.map Value.canonical) records :=
  List.forall₂_map_left_iff.mpr
    (List.forall₂_same.mpr fun r hr => t.indistinct_canonical (h r hr))

theorem renderRecords_map_canonical {t : Template} {column : Nat} {records : List Value}
    (h : ∀ r ∈ records, t.renderRecord column r.canonical = t.renderRecord column r) :
    t.renderRecords column (records.map Value.canonical) = t.renderRecords column records :=
  renderRecords_congr (List.forall₂_map_left_iff.mpr (List.forall₂_same.mpr h))

/-- **A record and its canonical form are rendered to the same text**, at every column. -/
theorem renderRecord_canonical (t : Template) (column : Nat) (h : record.Distinct) :
    t.renderRecord column record.canonical = t.renderRecord column record := by
  induction t using Template.induction generalizing column record with
  | node t ih =>
    rw [renderRecord_eq, renderRecord_eq]
    -- section by section: each looks at the record through one key
    refine congrArg String.join (List.map_congr_left fun s _ => ?_)
    cases s with
    | static text => rfl
    | dynamic key c => exact h.scalarAt_canonical key
    | inner key c =>
      rw [Section.fill, Section.fill, h.recordsAt_canonical]
      cases hi : t.inner? key with
      | none => rfl
      | some i =>
        have hmem := Entries.mem_of_lookup_eq_some hi
        exact renderRecords_map_canonical fun r hr => ih key i hmem c (h.of_mem_recordsAt hr)

/-- **A template does the same with data and with its canonical form.** -/
theorem observations_canonical (t : Template) (h : data.Distinct) :
    t.check data.canonical = t.check data ∧
      t.estimateData data.canonical = t.estimateData data ∧
        t.renderUnchecked data.canonical = t.renderUnchecked data := by
  have hdistinct : ∀ r ∈ data.records, r.Distinct := fun r hr => h.of_mem_records hr
  have hindistinct : List.Forall₂ (t.Indistinct Value.text?) data.canonical.records
      data.records := by
    rw [Value.records_canonical]
    exact t.forall₂_indistinct_canonical hdistinct
  obtain ⟨hcheck, hestimate⟩ := check_eq_and_estimateData_eq hindistinct
  refine ⟨hcheck, hestimate, ?_⟩
  have hrecords : t.renderRecords 0 (data.records.map Value.canonical) =
      t.renderRecords 0 data.records :=
    renderRecords_map_canonical fun r hr => t.renderRecord_canonical 0 (hdistinct r hr)
  unfold renderUnchecked
  rw [Value.records_canonical]
  -- without records, both are rendered with nothing filled in
  cases hcases : data.records with
  | nil => rfl
  | cons r rest =>
    rw [hcases] at hrecords
    exact hrecords

end Template

namespace Value

/-- **Serialising picks one value among all equal ones.** For values without a key twice in a
record, at any depth:

* serialising succeeds, and what is taken back is equal to the value up to the order of fields, has
  its fields in ascending order at every level, and does not change when it is serialised again;
* every template checks both values with the same outcome, gives both the same estimate and renders
  both to the same text;
* two values are equal up to the order of fields exactly when the same value is taken back.

In the other direction, a JSON value whose objects have their keys in ascending order, as they are
kept, is serialised to itself with its booleans and numbers spelled out. -/
theorem reserialization :
    (∀ v : Value, v.Distinct → ∃ w, v.reserialize? = some w ∧ (w == v) = true ∧ w.Ascending ∧
      w.reserialize? = some w ∧ ∀ t : Template,
        t.check w = t.check v ∧ t.estimateData w = t.estimateData v ∧
          t.renderUnchecked w = t.renderUnchecked v ∧
            ∀ checks, t.renderWithChecks checks w = t.renderWithChecks checks v) ∧
    (∀ v w : Value, v.Distinct → w.Distinct →
      ((v == w) = true ↔ v.reserialize? = w.reserialize?)) ∧
    ∀ j : Json, j.Ascending → (ofJson j).toDatum.toJson? = some j.spelled := by
  refine ⟨fun v hv => ?_, fun v w hv hw => ?_, fun j hj => toJson?_toDatum_ofJson hj⟩
  · have hsorted := ascending_canonical v
    have hfixed := canonical_of_ascending hsorted
    refine ⟨v.canonical, reserialize?_eq v, (same_iff hsorted.distinct hv).mpr hfixed, hsorted, ?_,
      fun t => ?_⟩
    · rw [reserialize?_eq, hfixed]
    · obtain ⟨hcheck, hestimate, hrender⟩ := t.observations_canonical hv
      refine ⟨hcheck, hestimate, hrender, fun checks => ?_⟩
      rw [Template.renderWithChecks, Template.renderWithChecks, hcheck, hrender]
  · rw [reserialize?_eq, reserialize?_eq, Option.some.injEq]
    exact same_iff hv hw

theorem reserialization_nested :
    let v := record [("rows", list [record [("y", text "1"), ("x", null)]]), ("id", text "2")]
    let w := record [("id", text "2"), ("rows", list [record [("x", null), ("y", text "1")]])]
    let j := Json.object [("flag", .bool true), ("size", .array [.number (.whole 3), .null])]
    v.Distinct ∧ w.Distinct ∧ (v == w) = true ∧ v.reserialize? = w.reserialize? ∧
      (∃ u, v.reserialize? = some u ∧ u.Ascending ∧ ∀ t : Template, t.check u = t.check v) ∧
        j.Ascending ∧ (ofJson j).toDatum.toJson? = some (.object [("flag", .string "true"),
          ("size", .array [.string "3", .null])]) := by
  intro v w j
  have hv : v.Distinct := by simp [v, Distinct]
  have hw : w.Distinct := by simp [w, Distinct]
  have hj : j.Ascending := Json.ascending_object_iff.mpr ⟨by decide, by simp⟩
  have hsame : (v == w) = true := by decide
  obtain ⟨u, hu, -, hsorted, -, ht⟩ := reserialization.1 v hv
  refine ⟨hv, hw, hsame, (reserialization.2.1 v w hv hw).mp hsame,
    ⟨u, hu, hsorted, fun t => (ht t).1⟩, hj, ?_⟩
  exact reserialization.2.2 j hj

end Value

end Stencil
