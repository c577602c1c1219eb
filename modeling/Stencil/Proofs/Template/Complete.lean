import Stencil.Proofs.Template.Alike
import Stencil.Proofs.Template.Placeholders

/-!
# Complete renderings

A dynamic placeholder whose key is not in the record is rendered as nothing, without any notice. The
check is there to rule this out, but it does not look at what is rendered: it goes through the
declared keys of a node and then through its inner templates, while the rendering goes through the
sections of a variant and comes to an inner template once for each of its placeholders.

`Template.renderLogged` is the rendering with a log of the keys that were not there
(`Template.text_renderLogged`). For templates that can be made the two agree
(`Session.renderLogged_of_find?`): the log is empty exactly when the check accepts the data,
provided that every node is plain (`Template.Plain`). A key with a newline is not the key that is
looked up at other columns, and what is registered under a key that the text does not have is
checked but never rendered.
-/

namespace Stencil

/-- A rendering with the keys that were looked up for it in records without them. -/
structure Logged where
  text : String
  absent : List String
deriving DecidableEq

/-- Renderings one behind the other. -/
def Logged.join (parts : List Logged) : Logged :=
  ⟨String.join (parts.map text), parts.flatMap absent⟩

/-- Renderings at a column, one below the other. -/
def Logged.stackAt (column : Nat) (parts : List Logged) : Logged :=
  ⟨Stencil.stackAt column (parts.map text), parts.flatMap absent⟩

/-- What a section gives for a record, if `bound` renders the template bound to a key. -/
def Section.fillLogged (bound : String → Nat → List Value → Logged) (record : Value) :
    Section → Logged
  | static text => ⟨text, []⟩
  | dynamic key _ =>
    match record.field? key with
    | some value => ⟨value.text?.getD "", []⟩
    | none => ⟨"", [key]⟩
  | inner key column => bound key column (record.recordsAt key)

namespace Section

variable {bound : String → Nat → List Value → Logged} {record : Value}

theorem text_fillLogged (s : Section) :
    (s.fillLogged bound record).text =
      s.fill (fun key column records => (bound key column records).text) record := by
  cases s with
  | static | inner => rfl
  | dynamic key column =>
    rw [fillLogged, fill, Value.scalarAt]
    cases record.field? key with
    | none => rfl
    | some value => rfl

theorem absent_fillLogged_eq_nil_iff {s : Section} :
    (s.fillLogged bound record).absent = [] ↔
      (∀ key, (∃ c, s = .dynamic key c) → record.field? key ≠ none) ∧
        ∀ key c, s = .inner key c → (bound key c (record.recordsAt key)).absent = [] := by
  cases s with
  | static text => simp [fillLogged]
  | inner key column => simp [fillLogged]
  | dynamic key column =>
    cases hfield : record.field? key with
    | none => simp [fillLogged, hfield]
    | some value => simp [fillLogged, hfield]

end Section

namespace Template

/-! ### The rendering with a log -/

mutual

/-- The rendering for one record at a column. -/
def renderRecordLogged (t : Template) (column : Nat) (record : Value) : Logged :=
  match t with
  | { variants, inner, .. } =>
    Logged.join ((variantFor variants column).map (Section.fillLogged
      (fun key column records => renderBoundLogged inner key column records) record))

/-- The rendering of the inner template bound to a key, for records at a column. -/
def renderBoundLogged : List (String × Template) → String → Nat → List Value → Logged
  | [], _, _, _ => ⟨"", []⟩
  | (k, t) :: rest, key, column, records =>
    if k = key then
      Logged.stackAt column (records.map fun record => t.renderRecordLogged column record)
    else renderBoundLogged rest key column records

end

/-- The rendering for a sequence of records at a column. -/
def renderRecordsLogged (t : Template) (column : Nat) (records : List Value) : Logged :=
  Logged.stackAt column (records.map (t.renderRecordLogged column))

/-- The rendering of data that is not checked. -/
def renderLogged (t : Template) (data : Value) : Logged :=
  match data.records with
  | [] => t.renderRecordLogged 0 (.record [])
  | records => t.renderRecordsLogged 0 records

theorem renderBoundLogged_eq (inner : List (String × Template)) (key : String) (column : Nat)
    (records : List Value) :
    renderBoundLogged inner key column records =
      ((inner.lookup key).map fun i => i.renderRecordsLogged column records).getD ⟨"", []⟩ := by
  induction inner with
  | nil => rw [renderBoundLogged, List.lookup_nil, Option.map_none, Option.getD_none]
  | cons entry rest ih =>
    obtain ⟨k, t⟩ := entry
    rw [renderBoundLogged, ih, Entries.lookup_cons_eq_ite]
    split
    · rfl
    · rfl

theorem renderRecordLogged_eq (t : Template) (column : Nat) (record : Value) :
    t.renderRecordLogged column record =
      Logged.join ((variantFor t.variants column).map (Section.fillLogged (fun key column records =>
        ((t.inner? key).map fun i => i.renderRecordsLogged column records).getD ⟨"", []⟩)
          record)) := by
  cases t
  rw [renderRecordLogged]
  simp only [renderBoundLogged_eq]
  rfl

/-! ### The log changes nothing -/

theorem text_renderRecordsLogged {t : Template} {column : Nat}
    (h : ∀ record, (t.renderRecordLogged column record).text = t.renderRecord column record)
    (records : List Value) :
    (t.renderRecordsLogged column records).text = t.renderRecords column records := by
  rw [renderRecordsLogged, renderRecords, Logged.stackAt, List.map_map]
  exact congrArg (stackAt column) (List.map_congr_left fun record _ => h record)

/-- **The rendering with a log is the rendering.** -/
theorem text_renderRecordLogged (t : Template) (column : Nat) (record : Value) :
    (t.renderRecordLogged column record).text = t.renderRecord column record := by
  induction t using Template.induction generalizing column record with
  | node t ih =>
    have hbound : ∀ key c records,
        Logged.text (((t.inner? key).map fun i => i.renderRecordsLogged c records).getD ⟨"", []⟩) =
          ((t.inner? key).map fun i => i.renderRecords c records).getD "" := by
      intro key c records
      cases hi : t.inner? key with
      | none => rfl
      | some i =>
        have hrecord := ih key i (Entries.mem_of_lookup_eq_some hi) c
        exact text_renderRecordsLogged hrecord records
    rw [renderRecordLogged_eq, renderRecord_eq, Logged.join, List.map_map]
    simp only [Function.comp_def, Section.text_fillLogged, hbound]

theorem text_renderLogged (t : Template) (data : Value) :
    (t.renderLogged data).text = t.renderUnchecked data := by
  unfold renderLogged renderUnchecked
  cases data.records with
  | nil => exact text_renderRecordLogged t 0 _
  | cons record rest => exact text_renderRecordsLogged (t.text_renderRecordLogged 0) _

theorem absent_renderRecordsLogged_eq_nil_iff {t : Template} {column : Nat}
    {records : List Value} :
    (t.renderRecordsLogged column records).absent = [] ↔
      ∀ record ∈ records, (t.renderRecordLogged column record).absent = [] := by
  simp [renderRecordsLogged, Logged.stackAt]

/-- The log for one record is empty when nothing is logged for the dynamic placeholders of the
variant, nor for the records of the inner ones. -/
theorem absent_renderRecordLogged_eq_nil_iff {t : Template} {column : Nat}
    {sections : List Section} (hsections : t.sections? column = some sections) {record : Value} :
    (t.renderRecordLogged column record).absent = [] ↔
      (∀ key, (∃ c, .dynamic key c ∈ sections) → record.field? key ≠ none) ∧
        ∀ key c, .inner key c ∈ sections → ∀ i, t.inner? key = some i →
          ∀ r ∈ record.recordsAt key, (i.renderRecordLogged c r).absent = [] := by
  have hbound : ∀ key c records,
      Logged.absent (((t.inner? key).map fun i => i.renderRecordsLogged c records).getD ⟨"", []⟩) =
        [] ↔ ∀ i, t.inner? key = some i →
          ∀ r ∈ records, (i.renderRecordLogged c r).absent = [] := by
    intro key c records
    cases t.inner? key with
    | none => simp
    | some i => simp [absent_renderRecordsLogged_eq_nil_iff]
  rw [renderRecordLogged_eq, variantFor_eq hsections, Logged.join, List.flatMap_map,
    List.flatMap_eq_nil_iff]
  simp only [Section.absent_fillLogged_eq_nil_iff, hbound]
  refine ⟨?_, ?_⟩
  · intro h
    refine ⟨?_, fun key c hs => (h _ hs).2 key c rfl⟩
    rintro key ⟨c, hs⟩
    exact (h _ hs).1 key ⟨c, rfl⟩
  · intro h s hs
    refine ⟨?_, ?_⟩
    · rintro key ⟨c, rfl⟩
      exact h.1 key ⟨c, hs⟩
    · rintro key c rfl
      exact h.2 key c hs

/-! ### The log and the check -/

/-- The keys are in one line each, and templates are bound to keys of the text only. -/
structure Plain (t : Template) : Prop where
  one_line : ∀ key ∈ t.keys, '\n' ∉ key.toList
  declared : ∀ key ∈ t.innerKeys, key ∈ t.keys

instance : DecidablePred Plain := fun t =>
  decidable_of_iff ((∀ key ∈ t.keys, '\n' ∉ key.toList) ∧ ∀ key ∈ t.innerKeys, key ∈ t.keys)
    ⟨fun h => ⟨h.1, h.2⟩, fun h => ⟨h.one_line, h.declared⟩⟩

theorem missingKeys_eq_nil_iff {keys : List String} {bound : String → Bool} {record : Value} :
    missingKeys keys bound record = [] ↔
      ∀ key, key ∈ keys ∧ bound key = false → record.field? key ≠ none := by
  simp [missingKeys, List.filter_eq_nil_iff]

/-- **The log is empty when the check accepts the record.** -/
theorem absent_eq_nil_iff_checkRecord {t : Template} (h : t.All Settled) (hplain : t.All Plain)
    {column : Nat} (hcolumn : column ∈ t.columns) (record : Value) :
    (t.renderRecordLogged column record).absent = [] ↔ t.checkRecord record = .ok () := by
  induction t using Template.induction generalizing column record with
  | node t ih =>
    obtain ⟨raw, -, hsections⟩ := h.here.exists_parse hcolumn
    have hkeys := h.here.exists_key_iff hsections (Or.inr hplain.here.one_line)
    rw [absent_renderRecordLogged_eq_nil_iff hsections,
      checkRecord_eq_ok_iff h.here.declared.distinct, missingKeys_eq_nil_iff]
    refine and_congr ?dynamic ?inner
    case dynamic =>
      -- the keys that are looked up are those that have to be there
      refine forall_congr' fun key => imp_congr_left ?_
      rw [Section.exists_dynamic_mem_iff, hkeys]
    case inner =>
      refine ⟨?_, ?_⟩
      · intro hlog key i hi r hr
        -- the text has a placeholder for the inner template
        have hbound : t.binds key = true := by
          rw [← lookup_inner_isSome, ← inner?, hi, Option.isSome_some]
        have hdeclared : key ∈ t.keys := hplain.here.declared key (of_decide_eq_true hbound)
        have hplaced := (hkeys key true).mpr ⟨hdeclared, hbound⟩
        obtain ⟨c, hs⟩ := Section.exists_inner_mem_iff.mpr hplaced
        obtain ⟨i', hi', hc⟩ := h.here.exists_inner hsections hs
        obtain rfl : i = i' := Option.some.inj (hi.symm.trans hi')
        have hmem := Entries.mem_of_lookup_eq_some hi
        exact (ih key i hmem (h.of_mem_inner hmem) (hplain.of_mem_inner hmem) hc r).mp
          (hlog key c hs i hi r hr)
      · intro hcheck key c hs i hi r hr
        obtain ⟨i', hi', hc⟩ := h.here.exists_inner hsections hs
        obtain rfl : i = i' := Option.some.inj (hi.symm.trans hi')
        have hmem := Entries.mem_of_lookup_eq_some hi
        exact (ih key i hmem (h.of_mem_inner hmem) (hplain.of_mem_inner hmem) hc r).mpr
          (hcheck key i hi r hr)

end Template

/-! ### Templates that can be made -/

namespace Session

/-- **The check accepts what can be rendered completely**, and nothing else. -/
theorem renderLogged_of_find? {commands : List Command} {address : Address} {t : Template}
    (h : (ofCommands commands).find? address = some t) (hplain : t.All Template.Plain)
    {data : Value} (hdata : data.records ≠ []) :
    (t.renderLogged data).text = t.renderUnchecked data ∧
      (t.check data = .ok () ↔ (t.renderLogged data).absent = []) ∧
      ∀ output, t.renderWithChecks true data = .ok output ↔ t.renderLogged data = ⟨output, []⟩ := by
  have ht := all_settled_of_find? h
  have hcheck : t.check data = .ok () ↔ (t.renderLogged data).absent = [] := by
    have hlogged : t.renderLogged data = t.renderRecordsLogged 0 data.records := by
      unfold Template.renderLogged
      split
      · next hnil => exact absurd hnil hdata
      · rfl
    rw [hlogged, Template.check, Template.checkRecords, Template.checkItems_eq_ok_iff,
      Template.absent_renderRecordsLogged_eq_nil_iff]
    refine forall₂_congr fun record _ => ?_
    exact (Template.absent_eq_nil_iff_checkRecord ht hplain ht.here.zero_mem record).symm
  have htext := t.text_renderLogged data
  refine ⟨htext, hcheck, fun output => ?_⟩
  rw [Template.renderWithChecks, if_pos rfl, Outcome.seq_eq_ok_iff, Outcome.mapError_eq_ok_iff,
    Outcome.pure_eq_ok_iff, hcheck, ← htext]
  cases t.renderLogged data with
  | mk text absent =>
    rw [Logged.mk.injEq]
    exact ⟨fun ⟨habsent, heq⟩ => ⟨heq.symm, habsent⟩, fun ⟨heq, habsent⟩ => ⟨habsent, heq.symm⟩⟩

theorem renderLogged_of_find?_nested :
    ∃ t, (ofCommands nested).find? ⟨"page", []⟩ = some t ∧ t.All Template.Plain ∧
      let data := Value.record [("list", .record [("item", .list [.text "a", .text "b"])])]
      data.records ≠ [] ∧ t.check data = .ok () ∧
        t.renderLogged data = ⟨"<ul>\n  <li>\n    a\n    b\n  </li>\n</ul>", []⟩ := by
  have hpage : ((ofCommands nested).find? ⟨"page", []⟩).map (fun t =>
      (decide (t.All Template.Plain),
        t.renderLogged (.record [("list", .record [("item", .list [.text "a", .text "b"])])]))) =
          some (true, ⟨"<ul>\n  <li>\n    a\n    b\n  </li>\n</ul>", []⟩) := by
    decide +kernel
  obtain ⟨t, ht, hpage⟩ := Option.map_eq_some_iff.mp hpage
  obtain ⟨hplain, hlogged⟩ := Prod.mk.inj hpage
  have hplain := of_decide_eq_true hplain
  have hdata : (Value.record [("list", .record [("item", .list [.text "a", .text "b"])])]).records
      ≠ [] := List.cons_ne_nil _ _
  obtain ⟨-, hcheck, -⟩ := renderLogged_of_find? ht hplain hdata
  exact ⟨t, ht, hplain, hdata, hcheck.mpr (by rw [hlogged]), hlogged⟩

end Session

end Stencil
