import Stencil.Proofs.Registration
import Stencil.Proofs.Template.Render

/-!
# Registering is inlining

To bind a key to an inner template is to put the renderings of the inner template where the
placeholder of the key was. So a template after a registration renders a record as the one before
the registration renders the record that holds, under the key, the finished text
(`Template.renderRecord_patched`). The text is rendered at the column of the placeholder, so all
placeholders of the key have to stand at the same one.

The other placeholders are not touched. Those of keys that were bound before ask for other keys of
the record, and find the inner templates that they found before.

The main statement is `Session.renderUnchecked_of_run_register`.
-/

namespace Stencil

/-! ### Binding one key -/

theorem Section.bind_key_self (key : String) (column : Nat) :
    (dynamic key column).bind (· == key) = inner key column :=
  if_pos (beq_self_eq_true key)

theorem Section.bind_key_of_ne {key k : String} (hne : k ≠ key) (column : Nat) :
    (dynamic k column).bind (· == key) = dynamic k column :=
  if_neg (by simp [hne])

namespace Template

/-- The fields of a record, with the text in the place of the records under a key that a template
renders from them at a column. -/
def inlined (i : Template) (key : String) (column : Nat) (fields : List (String × Value)) :
    List (String × Value) :=
  Entries.insert key (.text (i.renderRecords column ((Value.record fields).recordsAt key))) fields

/-- A template with one more inner template, and the key of it bound in every variant. -/
def patched (t : Template) (key : String) (stored : Template) : Template :=
  { t with
    variants := bindKey key t.variants
    inner := t.inner ++ [(key, stored)] }

variable {t stored : Template} {key : String} {column d : Nat} {sections : List Section}

theorem sections?_patched (h : t.sections? d = some sections) :
    (t.patched key stored).sections? d = some (sections.map (Section.bind (· == key))) := by
  show (bindKey key t.variants).lookup d = _
  unfold bindKey
  rw [Entries.lookup_map_values, ← sections?, h, Option.map_some]

theorem inner?_patched_self (hfree : t.inner? key = none) :
    (t.patched key stored).inner? key = some stored := by
  show (t.inner ++ [(key, stored)]).lookup key = _
  rw [List.lookup_append, ← inner?, hfree, Option.none_or, List.lookup_cons_self]

theorem inner?_patched_of_bound {k : String} {i : Template} (hbound : t.inner? k = some i) :
    (t.patched key stored).inner? k = some i := by
  show (t.inner ++ [(key, stored)]).lookup k = _
  rw [List.lookup_append, ← inner?, hbound, Option.some_or]

/-! ### Records with a finished text -/

theorem scalarAt_inlined_self (i : Template) (fields : List (String × Value)) :
    (Value.record (i.inlined key column fields)).scalarAt key =
      i.renderRecords column ((Value.record fields).recordsAt key) := by
  unfold Value.scalarAt inlined
  rw [Value.field?_record, Entries.lookup_insert_self]
  rfl

theorem field?_inlined_of_ne {k : String} (hne : k ≠ key) (i : Template)
    (fields : List (String × Value)) :
    (Value.record (i.inlined key column fields)).field? k = (Value.record fields).field? k :=
  Entries.lookup_insert_of_ne hne _ fields

/-- **A bound key gives what an inlined text gives**, for one record and from every variant in which
the placeholders of the key stand at one column. -/
theorem renderRecord_patched (ht : t.Settled) (hfree : t.inner? key = none)
    (hsections : t.sections? d = some sections)
    (hplaced : ∀ c, .dynamic key c ∈ sections → c = column) (fields : List (String × Value)) :
    (t.patched key stored).renderRecord d (.record fields) =
      t.renderRecord d (.record (stored.inlined key column fields)) := by
  rw [renderRecord_eq, renderRecord_eq, variantFor_eq hsections,
    variantFor_eq (sections?_patched hsections), List.map_map]
  refine congrArg String.join (List.map_congr_left fun s hs => ?_)
  rw [Function.comp_apply]
  cases s with
  | static text => rfl
  | dynamic k c =>
    by_cases hk : k = key
    · -- the placeholder was made an inner one, at the column at which the text is rendered
      subst hk
      obtain rfl := hplaced c hs
      rw [Section.bind_key_self]
      simp only [Section.fill, inner?_patched_self hfree, scalarAt_inlined_self, Option.map_some,
        Option.getD_some]
    · rw [Section.bind_key_of_ne hk]
      show Value.scalarAt _ k = Value.scalarAt _ k
      rw [Value.scalarAt, Value.scalarAt, field?_inlined_of_ne hk]
  | inner k c =>
    -- the key was bound before, so it is another one
    obtain ⟨i, hi, -⟩ := ht.exists_inner hsections hs
    have hk : k ≠ key := by
      rintro rfl
      rw [hfree] at hi
      cases hi
    rw [Section.bind_inner]
    simp only [Section.fill, inner?_patched_of_bound hi, hi, Value.recordsAt,
      field?_inlined_of_ne hk]

end Template

/-! ### Registrations in a session -/

namespace Session

/-- **Binding an inner template is inlining its output.** A registration is carried out, and before
it all placeholders of the key stood at one column. Then the stored copy has a variant for this
column, and the new receiver renders a list of records as the old one renders the records that hold
the renderings of the copy, at this column, under the key. -/
theorem renderUnchecked_of_run_register {commands : List Command} {target inner : Address}
    {key : String} {s' : Session} {t t' stored : Template} {sections : List Section} {column : Nat}
    (h : (ofCommands commands).run (.register target key inner) = .ok s')
    (ht : (ofCommands commands).find? target = some t) (ht' : s'.find? target = some t')
    (hstored : s'.find? ⟨target.slot, target.path ++ [key]⟩ = some stored)
    (hsections : t.sections? 0 = some sections)
    (hplaced : ∀ c, .dynamic key c ∈ sections ↔ c = column)
    {rows : List (List (String × Value))} (hrows : rows ≠ []) :
    column ∈ stored.columns ∧
      t'.renderUnchecked (.list (rows.map .record)) =
        t.renderUnchecked (.list (rows.map fun fields =>
          .record (stored.inlined key column fields))) := by
  obtain ⟨_, i, ht₀, hi⟩ := exists_of_run_register h
  obtain rfl := Option.some.inj (ht₀.symm.trans ht)
  rcases run_register_cases ht hi key with ⟨fault, -, hrun, -⟩ |
    ⟨r, _, hr, hrun, htarget, hcopy, -⟩
  · rw [hrun] at h
    cases h
  obtain rfl := Except.ok.inj (hrun.symm.trans h)
  obtain rfl := Option.some.inj (htarget.symm.trans ht')
  obtain rfl := Option.some.inj (hcopy.symm.trans hstored)
  -- both receivers are settled, and the second is the first with a patch
  have hsettled := all_settled_of_find? ht
  have hnew := (Template.all_settled_register hsettled (all_settled_of_find? hi) hr).1.here
  have hpatch : r.template = Template.patched _ key r.stored :=
    Template.patch_of_register hsettled (all_settled_of_find? hi) hr
  obtain ⟨⟨-, -, hfree⟩, -⟩ := Template.register_eq_ok_iff.mp hr
  have hfree := Template.inner?_eq_none_iff.mpr (decide_eq_false hfree)
  rw [hpatch] at hnew ⊢
  refine ⟨?column, ?rendering⟩
  case column =>
    -- the placeholder is an inner one now, and the copy was rebuilt for its column
    obtain ⟨_, hfound, hcolumn⟩ := hnew.exists_inner (Template.sections?_patched hsections)
      (List.mem_map.mpr ⟨_, (hplaced column).mpr rfl, Section.bind_key_self key column⟩)
    obtain rfl := Option.some.inj (hfound.symm.trans (Template.inner?_patched_self hfree))
    exact hcolumn
  case rendering =>
    rw [Template.renderUnchecked_list _ (mt List.map_eq_nil_iff.mp hrows),
      Template.renderUnchecked_list _ (mt List.map_eq_nil_iff.mp hrows)]
    unfold Template.renderRecords
    rw [List.map_map, List.map_map]
    refine congrArg (stackAt 0) (List.map_congr_left fun fields _ => ?_)
    exact Template.renderRecord_patched hsettled.here hfree hsections
      (fun c => (hplaced c).mp) fields

/-- A page with a list, and a key for notes at column 4 that is not bound yet. -/
def noted : List Command :=
  .compile "page" "<ul>\n  {{list}}\n</ul>\n(1) {{note}}" {} :: nested.tail

/-- The notes of one record are of several kinds, and another record has nothing at all. -/
def notedRows : List (List (String × Value)) :=
  [[("list", .record [("item", .text "a")]),
    ("note", .list [.text "x", .null, .record [("value", .text "y")]])], []]

theorem renderUnchecked_of_run_register_noted :
    ∃ s' t t' stored,
      (ofCommands noted).run (.register ⟨"page", []⟩ "note" ⟨"item", []⟩) = .ok s' ∧
      (ofCommands noted).find? ⟨"page", []⟩ = some t ∧ s'.find? ⟨"page", []⟩ = some t' ∧
      s'.find? ⟨"page", ["note"]⟩ = some stored ∧ 4 ∈ stored.columns ∧
      t'.renderUnchecked (.list (notedRows.map .record)) =
        "<ul>\n  <li>\n    a\n  </li>\n</ul>\n(1) x\n    \n    y\n<ul>\n  \n</ul>\n(1) " ∧
      t.renderUnchecked (.list (notedRows.map fun fields =>
          .record (stored.inlined "note" 4 fields))) =
        t'.renderUnchecked (.list (notedRows.map .record)) := by
  have hsections : ((ofCommands noted).find? ⟨"page", []⟩).map (Template.sections? · 0) =
      some (some [.static "<ul>\n  ", .inner "list" 2, .static "\n</ul>\n(1) ",
        .dynamic "note" 4]) := by
    decide +kernel
  have hafter : ((ofCommands noted).run
      (.register ⟨"page", []⟩ "note" ⟨"item", []⟩)).toOption.map (fun s' =>
        ((s'.find? ⟨"page", []⟩).map
          (Template.renderUnchecked · (.list (notedRows.map .record))),
            (s'.find? ⟨"page", ["note"]⟩).isSome)) =
      some (some
        "<ul>\n  <li>\n    a\n  </li>\n</ul>\n(1) x\n    \n    y\n<ul>\n  \n</ul>\n(1) ",
          true) := by
    decide +kernel
  obtain ⟨t, ht, hsections⟩ := Option.map_eq_some_iff.mp hsections
  obtain ⟨s', hrun, hafter⟩ := Option.map_eq_some_iff.mp hafter
  obtain ⟨hrender, hstored⟩ := Prod.mk.inj hafter
  obtain ⟨t', ht', hrender⟩ := Option.map_eq_some_iff.mp hrender
  obtain ⟨stored, hstored⟩ := Option.isSome_iff_exists.mp hstored
  have hrun := Outcome.toOption_eq_some_iff.mp hrun
  have hplaced : ∀ c, .dynamic "note" c ∈ ([.static "<ul>\n  ", .inner "list" 2,
      .static "\n</ul>\n(1) ", .dynamic "note" 4] : List Section) ↔ c = 4 := by
    intro c
    simp
  obtain ⟨hcolumn, hinlined⟩ := renderUnchecked_of_run_register hrun ht ht' hstored hsections
    hplaced (List.cons_ne_nil _ _ : notedRows ≠ [])
  exact ⟨s', t, t', stored, hrun, ht, ht', hstored, hcolumn, hrender, hinlined.symm⟩

end Session

end Stencil
