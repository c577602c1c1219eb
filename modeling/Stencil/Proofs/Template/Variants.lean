import Stencil.Proofs.Section.Parse
import Stencil.Proofs.Template.Settled

/-!
# The variants of a settled template

`Settled` speaks of variants as a registration computes them. Here they are described by what they
are (`VariantsFit`): each is the text indented to its column and read afresh, with the placeholders
of bound keys made inner ones, section by section (`Section.BoundTo`); and the columns of an inner
template are 0 and those at which a variant around it has a placeholder for it.

A settled template is of this form (`Settled.variantsFit`).
-/

namespace Stencil

/-! ### Binding section by section -/

/-- What a section becomes when templates are bound to some keys: a placeholder for one of the keys
becomes an inner one at the same column, all else stays as it is. -/
inductive Section.BoundTo (keys : List String) : Section → Section → Prop where
  | static (text : String) : BoundTo keys (.static text) (.static text)
  | free {key : String} (column : Nat) (hkey : key ∉ keys) :
      BoundTo keys (.dynamic key column) (.dynamic key column)
  | bound {key : String} (column : Nat) (hkey : key ∈ keys) :
      BoundTo keys (.dynamic key column) (.inner key column)

namespace Section

theorem boundTo_bind {keys : List String} {s : Section} (h : ∀ key column, s ≠ .inner key column) :
    s.BoundTo keys (s.bind fun key => decide (key ∈ keys)) := by
  cases s with
  | static text => exact .static text
  | dynamic key column =>
    by_cases hkey : key ∈ keys
    · rw [bind_dynamic_of_bound (decide_eq_true hkey)]
      exact .bound column hkey
    · rw [bind_dynamic_of_free (decide_eq_false hkey)]
      exact .free column hkey
  | inner key column => exact absurd rfl (h key column)

theorem forall₂_boundTo_of_parse {text : String} {raw : List Section} (h : parse text = .ok raw)
    (keys : List String) :
    List.Forall₂ (BoundTo keys) raw (raw.map (bind fun key => decide (key ∈ keys))) := by
  -- a text alone has no inner placeholders, so every section is one that `bind` may change
  rw [List.forall₂_map_right_iff, List.forall₂_same]
  intro s hs
  refine boundTo_bind fun key column => ?_
  rintro rfl
  exact inner_notMem_parse h key column hs

/-- Which keys a text has does not depend on what is bound to them. -/
theorem declaredKeys_eq_of_parse {text : String} {raw : List Section} (h : parse text = .ok raw)
    (bound : String → Bool) :
    declaredKeys raw = ((raw.map (bind bound)).filterMap key?).eraseDups := by
  have hkeys : ∀ s ∈ raw, dynamicKey? s = (key? ∘ bind bound) s := by
    intro s hs
    rw [Function.comp_apply, key?_bind]
    cases s with
    | static | dynamic => rfl
    | inner key column => exact absurd hs (inner_notMem_parse h key column)
  rw [declaredKeys, List.filterMap_map, List.filterMap_congr hkeys]

end Section

/-! ### The shape of a node -/

namespace Template

/-- The variants of a node and of its inner templates are those that its text and its inner keys
call for. -/
structure VariantsFit (t : Template) : Prop where
  /-- There is one variant for a column. -/
  ascending : t.columns.Pairwise (· < ·)
  /-- There is one inner template for a key. -/
  distinct : t.innerKeys.Nodup
  zero_mem : 0 ∈ t.columns
  /-- A variant is the text read at its column, with the registered keys bound. -/
  variants : ∀ column ∈ t.columns, ∃ raw sections,
    Section.parse (Text.indent column t.text) = .ok raw ∧ t.sections? column = some sections ∧
      List.Forall₂ (Section.BoundTo t.innerKeys) raw sections
  /-- An inner template has the columns at which it can be asked for, and no others. -/
  inner_columns : ∀ key i, t.inner? key = some i → ∀ c, c ∈ i.columns ↔
    c = 0 ∨ ∃ column sections, t.sections? column = some sections ∧ .inner key c ∈ sections
  /-- The declared keys are those of the placeholders, by their first appearance. -/
  keys : ∃ sections, t.sections? 0 = some sections ∧
    t.keys = (sections.filterMap Section.key?).eraseDups

theorem Settled.sections?_eq_some_iff {t : Template} (h : t.Settled) {column : Nat}
    {sections : List Section} :
    t.sections? column = some sections ↔ (column, sections) ∈ t.variants :=
  Entries.lookup_eq_some_iff_mem (h.ascending.imp Nat.ne_of_lt)

/-- A settled template has, for each of its columns, the sections of the text at that column. -/
theorem Settled.exists_parse {t : Template} (h : t.Settled) {column : Nat}
    (hcolumn : column ∈ t.columns) :
    ∃ raw, Section.parse (Text.indent column t.text) = .ok raw ∧
      t.sections? column = some (raw.map (Section.bind t.binds)) := by
  obtain ⟨⟨c, sections⟩, hmem, rfl⟩ := List.mem_map.mp hcolumn
  obtain ⟨raw, hraw, rfl⟩ := exists_parse_of_mem_variants h.variants hmem
  exact ⟨raw, hraw, h.sections?_eq_some_iff.mpr hmem⟩

/-- **Settled templates have the variants that fit.** -/
theorem Settled.variantsFit {t : Template} (h : t.Settled) : t.VariantsFit := by
  refine ⟨h.ascending, h.declared.distinct, h.zero_mem, ?variants, ?inner_columns, ?keys⟩
  case variants =>
    intro column hcolumn
    obtain ⟨raw, hraw, hsections⟩ := h.exists_parse hcolumn
    exact ⟨raw, _, hraw, hsections, Section.forall₂_boundTo_of_parse hraw t.innerKeys⟩
  case inner_columns =>
    intro key i hi c
    -- the columns were computed from the list of variants, which look-ups read
    rw [h.inner_columns key i (Entries.mem_of_lookup_eq_some hi), mem_innerColumns]
    simp only [h.sections?_eq_some_iff]
  case keys =>
    -- at column 0 the text is read as it was when the template was compiled
    obtain ⟨raw, hraw, hsections⟩ := h.exists_parse h.zero_mem
    obtain ⟨raw', hraw', hkeys⟩ := h.declared.keys
    rw [Text.indent_zero] at hraw
    obtain rfl : raw = raw' := Except.ok.inj (hraw.symm.trans hraw')
    exact ⟨_, hsections, hkeys.trans (Section.declaredKeys_eq_of_parse hraw t.binds)⟩

end Template

end Stencil
