import Stencil.Proofs.Section.Cut
import Stencil.Proofs.Template.Placeholders
import Stencil.Proofs.Template.Render
import Stencil.Proofs.Value.Texts

/-!
# Aligned renderings

A template is rendered at a column by three means. The literal text comes from the variant for the
column, where it is indented. The renderings of the records stand one below the other, each behind
the spaces of its line. And an inner template is rendered at a larger column, if its placeholder is
moved with its line.

For an **aligned** template (`Template.Aligned`) they amount to one shift: a rendering at a column
is the rendering at column 0 with as many spaces behind every newline (`renderRecord_shift`). A
literal text then has no empty line that would not be indented, a key is the same at every column,
and the placeholder of an inner template is moved, so the inner template is rendered at `start` and
at `start + column`. The two shifts that this makes for the inner template add up.

The data has to be in one line too. The texts in it are put in their places as they are, and a
second line of such a text would not be moved.

The main statement is `Session.renderRecords_of_find?`.
-/

namespace Stencil

/-- Renderings one below the other are shifted one by one. -/
theorem shift_stackAt (a b : Nat) (renderings : List String) :
    Text.shift b (stackAt a renderings) = stackAt (a + b) (renderings.map (Text.shift b)) := by
  have hbreak : Text.shift b (String.ofList ('\n' :: List.replicate a ' ')) =
      String.ofList ('\n' :: List.replicate (a + b) ' ') := by
    have hspaces := Text.shiftChars_shiftChars a b ['\n']
    simp only [Text.shiftChars, List.flatMap_singleton, if_true] at hspaces
    rw [Text.shift, String.toList_ofList, Text.shiftChars, hspaces]
  unfold stackAt
  rw [Text.shift_intercalate, hbreak]

namespace Template

/-- A node whose renderings at all columns are aligned, if those of its inner templates are. -/
structure Aligned (t : Template) : Prop where
  /-- No line of the text but the first is empty. -/
  filled : Text.Filled t.text.toList
  one_line : ∀ key ∈ t.keys, '\n' ∉ key.toList
  /-- The placeholder of an inner template does not open in the first line. -/
  moved : ∀ front x back, Section.Cut t.text (front ++ x :: back) →
    ∀ key ∈ x.2.key?, key ∈ t.innerKeys → '\n' ∈ front.flatMap Prod.fst

variable {t : Template} {column : Nat} {record : Value}

/-! ### Section by section -/

/-- The text of a section as it was read, for a record: the keys of the template are bound first. -/
def fillRaw (t : Template) (record : Value) (s : Section) : String :=
  (s.bind t.binds).fill
    (fun key column records =>
      ((t.inner? key).map fun i => i.renderRecords column records).getD "") record

theorem renderRecord_eq_join {raw : List Section}
    (h : t.sections? column = some (raw.map (Section.bind t.binds))) (record : Value) :
    t.renderRecord column record = String.join (raw.map (t.fillRaw record)) := by
  rw [renderRecord_eq, variantFor_eq h, List.map_map]
  rfl

theorem fillRaw_of_free {key : String} (h : t.binds key = false) (record : Value) (start : Nat) :
    t.fillRaw record (.dynamic key start) = record.scalarAt key := by
  rw [fillRaw, Section.bind_dynamic_of_free h]
  rfl

theorem fillRaw_of_bound {key : String} {i : Template} (h : t.binds key = true)
    (hi : t.inner? key = some i) (record : Value) (start : Nat) :
    t.fillRaw record (.dynamic key start) = i.renderRecords start (record.recordsAt key) := by
  rw [fillRaw, Section.bind_dynamic_of_bound h, Section.fill, hi]
  rfl

/-- Literal text that is a part of a filled text is shifted. -/
theorem fillRaw_moved_static {text : String} {before behind : List Char}
    (h : Text.Filled (text.toList ++ behind)) :
    t.fillRaw record ((Section.static text).moved column before behind) =
      Text.shift column (t.fillRaw record (.static text)) := by
  show String.ofList (_ ++ _) = String.ofList _
  rw [h.indentChars_append_padding]
  rfl

/-! ### Sequences of records -/

theorem renderRecords_shift (a b : Nat) {records : List Value}
    (h : ∀ r ∈ records, t.renderRecord (a + b) r = Text.shift b (t.renderRecord a r)) :
    t.renderRecords (a + b) records = Text.shift b (t.renderRecords a records) := by
  unfold renderRecords
  rw [shift_stackAt, List.map_map]
  exact congrArg (stackAt (a + b)) (List.map_congr_left h)

/-- An inner template that is entered at two columns. -/
theorem renderRecords_add {i : Template} {a b : Nat} {records : List Value}
    (h : ∀ c ∈ i.columns, ∀ r ∈ records,
      i.renderRecord c r = Text.shift c (i.renderRecord 0 r))
    (ha : a ∈ i.columns) (hab : a + b ∈ i.columns) :
    i.renderRecords (a + b) records = Text.shift b (i.renderRecords a records) := by
  refine renderRecords_shift a b fun r hr => ?_
  calc i.renderRecord (a + b) r
      = Text.shift (a + b) (i.renderRecord 0 r) := h _ hab r hr
    _ = Text.shift b (Text.shift a (i.renderRecord 0 r)) := (Text.shift_shift a b _).symm
    _ = Text.shift b (i.renderRecord a r) := by rw [h a ha r hr]

/-! ### The node with what is below it -/

theorem Settled.mem_keys_of_mem_cut (h : t.Settled) {cut : List (List Char × Section)}
    (hcut : Section.Cut t.text cut) {key : String} {start : Nat}
    (hmem : .dynamic key start ∈ cut.map Prod.snd) : key ∈ t.keys := by
  obtain ⟨sections, hsections, hkeys⟩ := h.declared.keys
  obtain rfl := Except.ok.inj (hcut.parse_eq.symm.trans hsections)
  rw [hkeys, Section.declaredKeys, List.mem_eraseDups]
  exact List.mem_filterMap.mpr ⟨_, hmem, rfl⟩

/-- **One shift for the whole**: the rendering of a record at a column is the one at column 0 with
as many spaces behind every newline. -/
theorem renderRecord_shift (h : t.All Settled) (haligned : t.All Aligned)
    (hcolumn : column ∈ t.columns) (hrecord : record.OneLine) :
    t.renderRecord column record = Text.shift column (t.renderRecord 0 record) := by
  induction t using Template.induction generalizing column record with
  | node t ih =>
    obtain ⟨hfilled, hone_line, hmoved⟩ := haligned.here
    obtain ⟨raw, hraw, hsections₀⟩ := h.here.exists_parse h.here.zero_mem
    obtain ⟨moved, hparse, hsections⟩ := h.here.exists_parse hcolumn
    rw [Text.indent_zero] at hraw
    obtain ⟨cut, hcut, rfl⟩ := Section.exists_cut hraw
    obtain rfl := Except.ok.inj ((hcut.parse_indent column).symm.trans hparse)
    rw [renderRecord_eq_join hsections, renderRecord_eq_join hsections₀]
    -- the texts of the sections are put together alike, so it is shown of each of them
    refine Section.join_movedAll fun front x back hsplit => ?_
    obtain ⟨piece, s⟩ := x
    have hpiece : (piece, s) ∈ cut := by
      rw [hsplit]
      exact List.mem_append_right _ List.mem_cons_self
    have hmem : s ∈ cut.map Prod.snd := List.mem_map.mpr ⟨_, hpiece, rfl⟩
    have hmem_moved : s.moved column (front.flatMap Prod.fst) (back.flatMap Prod.fst) ∈
        Section.movedAll column [] cut [] := by
      rw [hsplit]
      exact Section.moved_mem_movedAll front (piece, s) back
    cases s with
    | static text =>
      obtain rfl : piece = text.toList := (hcut.spelled _ hpiece).static_inv
      refine fillRaw_moved_static (@Text.Filled.of_append (front.flatMap Prod.fst) _ ?_)
      rwa [← hcut.text_eq, hsplit, List.flatMap_append, List.flatMap_cons] at hfilled
    | dynamic key start =>
      have hkey : Text.indent column key = key := by
        have hline := hone_line key (h.here.mem_keys_of_mem_cut hcut hmem)
        rw [Text.indent, Text.indentChars_of_notMem hline, String.ofList_toList]
      rw [Section.moved, hkey] at hmem_moved ⊢
      cases hbinds : t.binds key with
      | false =>
        -- a text of the record has no newline
        rw [fillRaw_of_free hbinds, fillRaw_of_free hbinds,
          Text.shift_of_notMem (hrecord.notMem_scalarAt key)]
      | true =>
        have hopens := hmoved front (piece, .dynamic key start) back (hsplit ▸ hcut) key rfl
          (of_decide_eq_true hbinds)
        rw [if_pos hopens] at hmem_moved ⊢
        -- the inner template has variants for both columns at which it is rendered
        have hbind := Section.bind_dynamic_of_bound hbinds
        obtain ⟨i, hi, hstart⟩ := h.here.exists_inner hsections₀
          (List.mem_map.mpr ⟨_, hmem, hbind start⟩)
        obtain ⟨j, hj, hshifted⟩ := h.here.exists_inner hsections
          (List.mem_map.mpr ⟨_, hmem_moved, hbind (start + column)⟩)
        obtain rfl := Option.some.inj (hi.symm.trans hj)
        have hinner := Entries.mem_of_lookup_eq_some hi
        have hrecords : ∀ c ∈ i.columns, ∀ r ∈ record.recordsAt key,
            i.renderRecord c r = Text.shift c (i.renderRecord 0 r) := fun c hc r hr =>
          ih key i hinner (h.of_mem_inner hinner) (haligned.of_mem_inner hinner) hc
            (hrecord.of_mem_recordsAt hr)
        rw [fillRaw_of_bound hbinds hi, fillRaw_of_bound hbinds hi]
        exact renderRecords_add hrecords hstart hshifted
    | inner key start => exact absurd hmem (Section.inner_notMem_parse hraw key start)

end Template

/-! ### Templates that can be made -/

namespace Session

/-- **The shift law**, for every template that can be made and is aligned with all templates below
it, and for records in one line. The rendering of the records at a column of the template is the
one at column 0 with as many spaces behind every newline: a block moves to the right as a whole, by
the same amount on every line. -/
theorem renderRecords_of_find? {commands : List Command} {address : Address} {t : Template}
    (h : (ofCommands commands).find? address = some t) (haligned : t.All Template.Aligned)
    {column : Nat} (hcolumn : column ∈ t.columns) {records : List Value}
    (hrecords : ∀ r ∈ records, r.OneLine) :
    t.renderRecords column records = Text.shift column (t.renderRecords 0 records) := by
  have hsettled := all_settled_of_find? h
  have hshift := Template.renderRecords_add (a := 0) (fun c hc r hr =>
    Template.renderRecord_shift hsettled haligned hc (hrecords r hr)) hsettled.here.zero_mem
    ((Nat.zero_add column).symm ▸ hcolumn)
  rwa [Nat.zero_add] at hshift

/-- Two items of a list, of which the first has two lines, at column 2 of a page. -/
theorem renderRecords_of_find?_nested :
    ∃ t, (ofCommands nested).find? ⟨"page", ["list"]⟩ = some t ∧ t.All Template.Aligned ∧
      2 ∈ t.columns ∧
      let records := [Value.record [("item", .list [.text "a", .text "b"])],
        .record [("item", .text "c")]]
      (∀ r ∈ records, r.OneLine) ∧
        t.renderRecords 2 records = Text.shift 2 (t.renderRecords 0 records) ∧
        t.renderRecords 0 records = "<li>\n  a\n  b\n</li>\n<li>\n  c\n</li>" := by
  have hlist : ((ofCommands nested).find? ⟨"page", ["list"]⟩).map (fun t =>
      (t.columns, t.renderRecords 0 [.record [("item", .list [.text "a", .text "b"])],
        .record [("item", .text "c")]])) =
      some ([0, 2], "<li>\n  a\n  b\n</li>\n<li>\n  c\n</li>") := by
    decide +kernel
  have hnodes : ((ofCommands nested).find? ⟨"page", ["list"]⟩).map (fun t =>
      t.nodes.map fun n => (n.text, n.keys, n.innerKeys)) =
      some [("<li>\n  {{item}}\n</li>", ["item"], ["item"]), ("{{value}}", ["value"], [])] := by
    decide +kernel
  obtain ⟨t, ht, hlist⟩ := Option.map_eq_some_iff.mp hlist
  obtain ⟨hcolumns, hrender⟩ := Prod.mk.inj hlist
  rw [ht, Option.map_some, Option.some_inj] at hnodes
  have hcolumn : 2 ∈ t.columns := by
    rw [hcolumns]
    decide +kernel
  have hcut : Section.Cut "<li>\n  {{item}}\n</li>" [("<li>\n  ".toList, .static "<li>\n  "),
      ("{{item}}".toList, .dynamic "item" 2), ("\n</li>".toList, .static "\n</li>")] := by
    refine ⟨rfl, rfl, ?_⟩
    simp only [List.forall_mem_cons]
    exact ⟨.static _, .dynamic "item" 2, .static _, fun x hx => absurd hx List.not_mem_nil⟩
  have haligned : t.All Template.Aligned := by
    rw [Template.all_iff_forall_mem_nodes]
    intro n hn
    have hfields := List.mem_map_of_mem (f := fun n => (n.text, n.keys, n.innerKeys)) hn
    rw [hnodes] at hfields
    simp only [List.mem_cons, List.not_mem_nil, Prod.mk.injEq, or_false] at hfields
    rcases hfields with ⟨htext, hkeys, hinner⟩ | ⟨htext, hkeys, hinner⟩
    · -- the only placeholder stands in the second line
      refine ⟨?_, ?_, ?_⟩
      · rw [htext]
        decide +kernel
      · rw [hkeys]
        decide +kernel
      · rw [htext, hinner, hcut.forall_split_iff]
        decide +kernel
    · refine ⟨?_, ?_, ?_⟩
      · rw [htext]
        decide +kernel
      · rw [hkeys]
        decide +kernel
      · rw [hinner]
        exact fun _ _ _ _ key _ hkey => absurd hkey List.not_mem_nil
  refine ⟨t, ht, haligned, hcolumn, by decide +kernel, ?_, hrender⟩
  exact renderRecords_of_find? ht haligned hcolumn (by decide +kernel)

end Session

end Stencil
