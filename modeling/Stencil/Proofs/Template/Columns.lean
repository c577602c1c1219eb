import Stencil.Proofs.Section.Cut
import Stencil.Proofs.Session
import Stencil.Proofs.Template.Skeleton

/-!
# Columns in closed form

A registration computes the columns of inner templates from the variants around them, level by
level. Here they are read off the texts. A text that stands at some columns asks for what is bound
to a key at column 0, at the column of each placeholder for the key in its first line, and, for each
placeholder below the first line, at its column added to each of those where the text stands
(`Section.AskedFor`): the first line of a text is not moved when the text is indented, and all other
lines are.

For the nodes of a tree this is a recursion on the path (`Skeleton.HasColumn`). It needs the texts
on the path and the columns of the root, so it does not matter in which order, or how often, inner
templates were registered. The main statement is `Session.columns_of_find?`.

A key with a newline is left out. Such a key is indented with the text, and an indented key is
another one.
-/

namespace Stencil

/-! ### Placeholders of a text -/

namespace Section

/-- Behind `before` the text has a placeholder for `key`, at `column`. -/
def PlacedAt (text key : String) (before : List Char) (column : Nat) : Prop :=
  ∃ front piece back, Cut text (front ++ (piece, .dynamic key column) :: back) ∧
    before = front.flatMap Prod.fst

variable {text key : String} {before : List Char} {column c : Nat}

/-- The columns at which a text asks for what is bound to a key, if the text itself stands at the
columns `around`. -/
inductive AskedFor (text key : String) (around : Nat → Prop) : Nat → Prop where
  | zero : AskedFor text key around 0
  | first {before : List Char} {column : Nat} (placed : PlacedAt text key before column)
    (line : '\n' ∉ before) : AskedFor text key around column
  | moved {before : List Char} {column c : Nat} (placed : PlacedAt text key before column)
    (line : '\n' ∈ before) (stands : around c) : AskedFor text key around (column + c)

theorem askedFor_iff {around : Nat → Prop} : AskedFor text key around c ↔
    c = 0 ∨ (∃ before, PlacedAt text key before c ∧ '\n' ∉ before) ∨
      ∃ before column d, PlacedAt text key before column ∧ '\n' ∈ before ∧ around d ∧
        c = column + d := by
  refine ⟨?_, ?_⟩
  · intro h
    cases h with
    | zero => exact Or.inl rfl
    | first placed line => exact Or.inr (Or.inl ⟨_, placed, line⟩)
    | moved placed line stands => exact Or.inr (Or.inr ⟨_, _, _, placed, line, stands, rfl⟩)
  · rintro (rfl | ⟨before, placed, line⟩ | ⟨before, column, d, placed, line, stands, rfl⟩)
    · exact .zero
    · exact .first placed line
    · exact .moved placed line stands

/-- The placeholders of the indented text, once the key is bound. A key in one line is not changed
by the indentation, and no other key becomes it. -/
theorem inner_mem_map_bind_parse_indent {cut : List (List Char × Section)} (h : Cut text cut)
    {bound : String → Bool} (hbound : bound key = true) (hkey : '\n' ∉ key.toList) :
    .inner key c ∈ (movedAll column [] cut []).map (bind bound) ↔
      ∃ before start, PlacedAt text key before start ∧
        c = if '\n' ∈ before then start + column else start := by
  have hself : ∀ k : String, Text.indent column k = key ↔ k = key := fun k =>
    Text.indent_eq_iff_of_notMem hkey
  rw [List.mem_map]
  refine ⟨?_, ?_⟩
  · rintro ⟨s, hs, heq⟩
    obtain ⟨front, ⟨piece, s⟩, back, rfl, rfl⟩ := mem_movedAll.mp hs
    cases s with
    | static text => cases heq
    | inner k start =>
      -- a text alone has no inner placeholders
      refine absurd ?_ (inner_notMem_parse h.parse_eq k start)
      exact List.mem_map.mpr ⟨_, List.mem_append_right _ List.mem_cons_self, rfl⟩
    | dynamic k start =>
      have hk : k = key := by
        have hkeys := congrArg key? heq
        rw [key?_bind] at hkeys
        exact (hself k).mp (Option.some.inj hkeys)
      subst hk
      refine ⟨_, start, ⟨front, piece, back, h, rfl⟩, ?_⟩
      rw [moved, (hself k).mpr rfl, bind_dynamic_of_bound hbound] at heq
      exact (inner.inj heq).2.symm
  · rintro ⟨before, start, ⟨front, piece, back, hcut, rfl⟩, rfl⟩
    -- the placeholder was found in another cut, but there is only one
    obtain rfl := h.unique hcut
    refine ⟨_, moved_mem_movedAll front (piece, .dynamic key start) back, ?_⟩
    rw [moved, (hself key).mpr rfl, bind_dynamic_of_bound hbound]

end Section

/-! ### One level -/

namespace Template

open Section (AskedFor PlacedAt)

variable {t i n : Template} {key : String} {c : Nat}

/-- **What a variant asks for** is found in the text of the template. -/
theorem Settled.inner_mem_sections_iff (h : t.Settled) (hbound : key ∈ t.innerKeys)
    (hkey : '\n' ∉ key.toList) {column : Nat} (hcolumn : column ∈ t.columns) :
    (∃ sections, t.sections? column = some sections ∧ .inner key c ∈ sections) ↔
      ∃ before start, PlacedAt t.text key before start ∧
        c = if '\n' ∈ before then start + column else start := by
  obtain ⟨raw, hraw, hsections⟩ := h.exists_parse hcolumn
  obtain ⟨sections, hparse⟩ := Section.exists_parse_indent_iff.mp ⟨raw, hraw⟩
  obtain ⟨cut, hcut, -⟩ := Section.exists_cut hparse
  obtain rfl : raw = _ := Except.ok.inj (hraw.symm.trans (hcut.parse_indent column))
  have hbinds : t.binds key = true := decide_eq_true hbound
  rw [← Section.inner_mem_map_bind_parse_indent hcut hbinds hkey, hsections]
  refine ⟨?_, fun hmem => ⟨_, rfl, hmem⟩⟩
  rintro ⟨sections, ⟨⟩, hmem⟩
  exact hmem

/-- **The columns of an inner template**, from the text around it and the columns of that text. -/
theorem Settled.mem_columns_inner_iff (h : t.Settled) (hi : t.inner? key = some i)
    (hkey : '\n' ∉ key.toList) : c ∈ i.columns ↔ AskedFor t.text key (· ∈ t.columns) c := by
  have hbound : key ∈ t.innerKeys :=
    List.mem_map.mpr ⟨_, Entries.mem_of_lookup_eq_some hi, rfl⟩
  -- the columns are 0 and whatever the variants ask for, which is known for each of them
  rw [h.variantsFit.inner_columns key i hi c]
  refine ⟨?_, ?_⟩
  · rintro (rfl | ⟨column, sections, hsections, hmem⟩)
    · exact .zero
    · have hcolumn : column ∈ t.columns :=
        List.mem_map.mpr ⟨_, h.sections?_eq_some_iff.mp hsections, rfl⟩
      obtain ⟨before, start, hplaced, rfl⟩ :=
        (h.inner_mem_sections_iff hbound hkey hcolumn).mp ⟨sections, hsections, hmem⟩
      split
      · next hline => exact .moved hplaced hline hcolumn
      · next hline => exact .first hplaced hline
  · have hask : ∀ {column before start}, column ∈ t.columns → PlacedAt t.text key before start →
        (c = if '\n' ∈ before then start + column else start) →
          ∃ column sections, t.sections? column = some sections ∧ .inner key c ∈ sections :=
      fun hcolumn hplaced heq =>
        ⟨_, (h.inner_mem_sections_iff hbound hkey hcolumn).mpr ⟨_, _, hplaced, heq⟩⟩
    intro hasked
    cases hasked with
    | zero => exact Or.inl rfl
    | first placed line => exact Or.inr (hask h.zero_mem placed (if_neg line).symm)
    | moved placed line stands => exact Or.inr (hask stands placed (if_pos line).symm)

end Template

/-! ### Every level -/

/-- The columns at which the node at the end of a path stands, if the root stands at the columns
`root`. -/
def Skeleton.HasColumn (s : Skeleton) (root : Nat → Prop) : List String → Nat → Prop
  | [], c => root c
  | key :: path, c =>
    ∃ i, s.inner.lookup key = some i ∧ i.HasColumn (Section.AskedFor s.text key root) path c

/-- **The columns of every node** are known from the texts above it and the columns of the root. -/
theorem Template.All.mem_columns_iff {t n : Template} (h : t.All Settled) {path : List String}
    (hn : t.find? path = some n) (hpath : ∀ key ∈ path, '\n' ∉ key.toList) (c : Nat) :
    c ∈ n.columns ↔ t.skeleton.HasColumn (· ∈ t.columns) path c := by
  induction path generalizing t with
  | nil =>
    obtain rfl : t = n := Option.some.inj hn
    exact Iff.rfl
  | cons key path ih =>
    rw [find?_cons, Option.bind_eq_some_iff] at hn
    obtain ⟨i, hi, hn⟩ := hn
    obtain ⟨hkey, hpath⟩ := List.forall_mem_cons.mp hpath
    -- the columns of the next node are those asked for, which is where the recursion goes on
    have hcolumns : (· ∈ i.columns) = Section.AskedFor t.text key (· ∈ t.columns) :=
      funext fun _ => propext (h.here.mem_columns_inner_iff hi hkey)
    have hlookup : t.skeleton.inner.lookup key = some i.skeleton := by
      rw [lookup_inner_skeleton, hi, Option.map_some]
    rw [ih (h.of_mem_inner (Entries.mem_of_lookup_eq_some hi)) hn hpath, hcolumns,
      Skeleton.HasColumn, text_skeleton]
    refine ⟨fun hc => ⟨_, hlookup, hc⟩, ?_⟩
    rintro ⟨i', hi', hc⟩
    obtain rfl := Option.some.inj (hlookup.symm.trans hi')
    exact hc

namespace Session

/-- **Columns in closed form.** An inner template of a template that can be made has, if its key is
in one line, the columns at which the text around it asks for it, and no others. So the columns of
every node at the end of a path of such keys are given by the texts on the path and by the columns
of the root, whatever commands led there. -/
theorem columns_of_find? {commands : List Command} {address : Address} {t : Template}
    (h : (ofCommands commands).find? address = some t) :
    (∀ key i, t.inner? key = some i → '\n' ∉ key.toList →
      ∀ c, c ∈ i.columns ↔
        c = 0 ∨ (∃ before, Section.PlacedAt t.text key before c ∧ '\n' ∉ before) ∨
          ∃ before column d, Section.PlacedAt t.text key before column ∧ '\n' ∈ before ∧
            d ∈ t.columns ∧ c = column + d) ∧
      ∀ path n, t.find? path = some n → (∀ key ∈ path, '\n' ∉ key.toList) →
        ∀ c, c ∈ n.columns ↔ t.skeleton.HasColumn (· ∈ t.columns) path c := by
  have hsettled := all_settled_of_find? h
  refine ⟨fun key i hi hkey c => ?_, fun path n hn hpath c => hsettled.mem_columns_iff hn hpath c⟩
  rw [hsettled.here.mem_columns_inner_iff hi hkey, Section.askedFor_iff]

/-- The item stands at column 2 of a list that stands at column 2 of the page. -/
theorem columns_of_find?_nested :
    ∃ t n, (ofCommands nested).find? ⟨"page", []⟩ = some t ∧ t.columns = [0] ∧
      t.find? ["list", "item"] = some n ∧ n.columns = [0, 2, 4] ∧
        ∀ c, c ∈ n.columns ↔ t.skeleton.HasColumn (· ∈ t.columns) ["list", "item"] c := by
  have hcolumns : ((ofCommands nested).find? ⟨"page", []⟩).bind (fun t =>
      (t.find? ["list", "item"]).map fun n => (t.columns, n.columns)) = some ([0], [0, 2, 4]) := by
    decide +kernel
  obtain ⟨t, ht, hn⟩ := Option.bind_eq_some_iff.mp hcolumns
  obtain ⟨n, hn, heq⟩ := Option.map_eq_some_iff.mp hn
  obtain ⟨hroot, hnode⟩ := Prod.mk.inj heq
  exact ⟨t, n, ht, hroot, hn, hnode, (columns_of_find? ht).2 _ n hn (by decide)⟩

end Session

end Stencil
