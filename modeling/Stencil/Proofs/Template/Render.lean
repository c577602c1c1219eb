import Stencil.Proofs.Session
import Stencil.Proofs.Template.Skeleton

/-!
# Rendering from stored variants

A template is rendered from its stored variants. Two things could go wrong without any notice: the
variant for a column may be missing, and then the one for column 0 is taken; and an inner
placeholder may have no template under its key, and then it is left out. `Template.renderData?` is
the rendering that gives up in both cases.

For templates that can be made neither happens, and what is rendered from the variants is the
rendering of the skeleton (`Session.render_of_find?`). The reason is that the placeholder of an
inner template stands in a variant, so the inner template has a variant for its column
(`Template.Settled.exists_inner`). The induction is on the tree, for all columns of a node at a
time.
-/

namespace Stencil

/-- The text that a section gives for a record, if `bound` renders the template bound to a key. -/
def Section.fill? (bound : String → Nat → List Value → Option String) (record : Value) :
    Section → Option String
  | static text => some text
  | dynamic key _ => some (record.scalarAt key)
  | inner key column => bound key column (record.recordsAt key)

namespace Template

/-! ### Rendering that does not make do -/

mutual

/-- The rendering for one record from the variant for a column, which has to exist. -/
def renderRecord? (t : Template) (column : Nat) (record : Value) : Option String :=
  match t with
  | { variants, inner, .. } =>
    (variants.lookup column).bind fun sections =>
      (sections.mapM (Section.fill?
        (fun key column records => renderBound? inner key column records) record)).map String.join

/-- The rendering of the inner template bound to a key, which has to exist, for records at a
column. -/
def renderBound? : List (String × Template) → String → Nat → List Value → Option String
  | [], _, _, _ => none
  | (k, t) :: rest, key, column, records =>
    if k = key then
      (records.mapM fun record => t.renderRecord? column record).map (stackAt column)
    else renderBound? rest key column records

end

/-- The rendering for a sequence of records at a column. -/
def renderRecords? (t : Template) (column : Nat) (records : List Value) : Option String :=
  (records.mapM (t.renderRecord? column)).map (stackAt column)

/-- The rendering of data that is not checked. -/
def renderData? (t : Template) (data : Value) : Option String :=
  match data.records with
  | [] => t.renderRecord? 0 (.record [])
  | records => t.renderRecords? 0 records

/-! ### Inner templates by their keys -/

theorem renderBound_eq (inner : List (String × Template)) (key : String) (column : Nat)
    (records : List Value) :
    renderBound inner key column records =
      ((inner.lookup key).map fun i => i.renderRecords column records).getD "" := by
  induction inner with
  | nil => rw [renderBound, List.lookup_nil, Option.map_none, Option.getD_none]
  | cons entry rest ih =>
    obtain ⟨k, t⟩ := entry
    rw [renderBound, ih, Entries.lookup_cons_eq_ite]
    split
    · rfl
    · rfl

theorem renderBound?_eq (inner : List (String × Template)) (key : String) (column : Nat)
    (records : List Value) :
    renderBound? inner key column records =
      (inner.lookup key).bind fun i => i.renderRecords? column records := by
  induction inner with
  | nil => rw [renderBound?, List.lookup_nil, Option.bind_none]
  | cons entry rest ih =>
    obtain ⟨k, t⟩ := entry
    rw [renderBound?, ih, Entries.lookup_cons_eq_ite]
    split
    · rfl
    · rfl

theorem renderRecord_eq (t : Template) (column : Nat) (record : Value) :
    t.renderRecord column record =
      String.join ((variantFor t.variants column).map (Section.fill (fun key column records =>
        ((t.inner? key).map fun i => i.renderRecords column records).getD "") record)) := by
  cases t
  rw [renderRecord]
  simp only [renderBound_eq]
  rfl

theorem renderRecord?_eq (t : Template) (column : Nat) (record : Value) :
    t.renderRecord? column record =
      (t.sections? column).bind fun sections =>
        (sections.mapM (Section.fill? (fun key column records =>
          (t.inner? key).bind fun i => i.renderRecords? column records) record)).map
            String.join := by
  cases t
  rw [renderRecord?]
  simp only [renderBound?_eq]
  rfl

theorem renderUnchecked_list (t : Template) {items : List Value} (hitems : items ≠ []) :
    t.renderUnchecked (.list items) = t.renderRecords 0 items := by
  unfold renderUnchecked
  rw [Value.records_list]
  split
  · exact absurd rfl hitems
  · rfl

variable {t i : Template} {key : String} {column c : Nat} {sections : List Section}

/-- Where a variant is there, the one for column 0 is not asked for. -/
theorem variantFor_eq (h : t.sections? column = some sections) :
    variantFor t.variants column = sections := by
  unfold sections? at h
  rw [variantFor, h]
  rfl

/-! ### Settled templates -/

/-- **Whatever a variant asks for is there**: the inner template of a placeholder is bound, and has
a variant for the placeholder's column. -/
theorem Settled.exists_inner (h : t.Settled) (hsections : t.sections? column = some sections)
    (hmem : .inner key c ∈ sections) : ∃ i, t.inner? key = some i ∧ c ∈ i.columns := by
  obtain ⟨raw, hraw, rfl⟩ :=
    exists_parse_of_mem_variants h.variants (h.sections?_eq_some_iff.mp hsections)
  obtain ⟨s, -, hs⟩ :=
    Lists.exists_of_mem_right (Section.forall₂_boundTo_of_parse hraw t.innerKeys) hmem
  have hsome : (t.inner? key).isSome := by
    cases hs with
    | bound _ hkey =>
      rw [inner?, lookup_inner_isSome, binds]
      exact decide_eq_true hkey
  obtain ⟨i, hi⟩ := Option.isSome_iff_exists.mp hsome
  refine ⟨i, hi, ?_⟩
  rw [h.inner_columns key i (Entries.mem_of_lookup_eq_some hi), mem_innerColumns]
  exact Or.inr ⟨column, _, h.sections?_eq_some_iff.mp hsections, hmem⟩

theorem renderRecords_of_renderRecord {s : Skeleton}
    (h : ∀ record, s.renderRecord? c record = some (t.renderRecord c record) ∧
      t.renderRecord? c record = some (t.renderRecord c record)) (records : List Value) :
    s.renderRecords? c records = some (t.renderRecords c records) ∧
      t.renderRecords? c records = some (t.renderRecords c records) := by
  refine ⟨?_, ?_⟩
  · rw [Skeleton.renderRecords?, Outcome.mapM_eq_some_of_forall fun r _ => (h r).1]
    rfl
  · rw [renderRecords?, Outcome.mapM_eq_some_of_forall fun r _ => (h r).2]
    rfl

/-- The rendering for one record at a column of a settled template is the one of its skeleton, and
no stored variant is missing for it. -/
theorem renderRecord_of_settled (h : t.All Settled) (hcolumn : column ∈ t.columns)
    (record : Value) :
    t.skeleton.renderRecord? column record = some (t.renderRecord column record) ∧
      t.renderRecord? column record = some (t.renderRecord column record) := by
  induction t using Template.induction generalizing column record with
  | node t ih =>
    obtain ⟨raw, hraw, hsections⟩ := h.here.exists_parse hcolumn
    -- the induction hypothesis, for all records under a key
    have hbelow : ∀ {key i c}, t.inner? key = some i → c ∈ i.columns → ∀ records,
        i.skeleton.renderRecords? c records = some (i.renderRecords c records) ∧
          i.renderRecords? c records = some (i.renderRecords c records) := by
      intro key i c hi hc records
      have hmem := Entries.mem_of_lookup_eq_some hi
      exact renderRecords_of_renderRecord (ih key i hmem (h.of_mem_inner hmem) hc) records
    rw [renderRecord_eq, variantFor_eq hsections]
    refine ⟨?skeleton, ?stored⟩
    case skeleton =>
      have hlookup := lookup_inner_skeleton t
      rw [Skeleton.renderRecord?_eq, text_skeleton, hraw, List.map_map, Except.toOption,
        Option.bind_some, Outcome.mapM_eq_some_of_forall, Option.map_some]
      intro s hs
      cases s with
      | static text => rfl
      | inner key c => exact absurd hs (Section.inner_notMem_parse hraw key c)
      | dynamic key c =>
        by_cases hkey : t.binds key
        · -- the placeholder was made an inner one, and the inner template has its column
          have hbind := Section.bind_dynamic_of_bound hkey c
          obtain ⟨i, hi, hc⟩ := h.here.exists_inner hsections (List.mem_map.mpr ⟨_, hs, hbind⟩)
          rw [Function.comp_apply, hbind]
          simp only [Section.fillBound?, Section.fill, hlookup, hi, Option.map_some,
            Option.getD_some, (hbelow hi hc _).1]
        · have hfree : t.binds key = false := Bool.eq_false_iff.mpr hkey
          have hi : t.inner? key = none := inner?_eq_none_iff.mpr hfree
          rw [Function.comp_apply, Section.bind_dynamic_of_free hfree]
          simp only [Section.fillBound?, Section.fill, hlookup, hi, Option.map_none]
    case stored =>
      rw [renderRecord?_eq, hsections, Option.bind_some, Outcome.mapM_eq_some_of_forall,
        Option.map_some]
      intro s hs
      cases s with
      | static text | dynamic key c => rfl
      | inner key c =>
        obtain ⟨i, hi, hc⟩ := h.here.exists_inner hsections hs
        simp only [Section.fill?, Section.fill, hi, Option.bind_some, Option.map_some,
          Option.getD_some, (hbelow hi hc _).2]

end Template

/-! ### Templates that can be made -/

namespace Session

/-- **What is rendered from the stored variants is the rendering of the skeleton**, for every
template that can be made and all data, and it is rendered without making do: whenever a variant
for a column or the template under a key is asked for, it is there. -/
theorem render_of_find? {commands : List Command} {address : Address} {t : Template}
    (h : (ofCommands commands).find? address = some t) (data : Value) :
    t.skeleton.renderData? data = some (t.renderUnchecked data) ∧
      t.renderData? data = some (t.renderUnchecked data) := by
  have hrecord : ∀ record, t.skeleton.renderRecord? 0 record = some (t.renderRecord 0 record) ∧
      t.renderRecord? 0 record = some (t.renderRecord 0 record) := by
    have ht := all_settled_of_find? h
    exact Template.renderRecord_of_settled ht ht.here.zero_mem
  unfold Skeleton.renderData? Template.renderData? Template.renderUnchecked
  cases data.records with
  | nil => exact hrecord _
  | cons record rest => exact Template.renderRecords_of_renderRecord hrecord (record :: rest)

theorem render_of_find?_nested :
    ∃ t, (ofCommands nested).find? ⟨"page", []⟩ = some t ∧
      let data := Value.record [("list", .record [("item", .list [.text "a", .text "b"])])]
      t.renderUnchecked data = "<ul>\n  <li>\n    a\n    b\n  </li>\n</ul>" ∧
        t.skeleton.renderData? data = some (t.renderUnchecked data) ∧
          t.renderData? data = some (t.renderUnchecked data) := by
  have hrender : ((ofCommands nested).find? ⟨"page", []⟩).map (fun t => t.renderUnchecked
      (.record [("list", .record [("item", .list [.text "a", .text "b"])])])) =
        some "<ul>\n  <li>\n    a\n    b\n  </li>\n</ul>" := by
    decide +kernel
  obtain ⟨t, ht, hrender⟩ := Option.map_eq_some_iff.mp hrender
  exact ⟨t, ht, hrender, render_of_find? ht _⟩

end Session

end Stencil
