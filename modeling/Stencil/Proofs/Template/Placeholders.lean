import Stencil.Proofs.Section.Indent
import Stencil.Proofs.Session

/-!
# The placeholders of the variants

The variants of a template are made from the same text, so one would expect them to have the same
placeholders. They do, position by position, but for one thing: a key is indented like any other
text of the template (`Settled.map_key?_sections`). A key in one line is left as it is. A key with a
newline in it is another key in every variant but the one for column 0, as the declared keys are
those for column 0 (`Settled.indent_keys_iff`).

Whether a placeholder is an inner one depends on the key that it has in the variant
(`Settled.isInner_eq`). So where no declared key has a newline, the variants have the same
placeholders, and the same ones of them are inner (`Settled.samePlaceholders`).
-/

namespace Stencil

namespace Section

/-- Whether a section stands for an inner template. -/
def isInner : Section → Bool
  | inner _ _ => true
  | static _ | dynamic _ _ => false

/-- The same keys in the same places, and inner templates in the same places. -/
def SamePlaceholders (sections others : List Section) : Prop :=
  others.map key? = sections.map key? ∧ others.map isInner = sections.map isInner

/-- The keys of the placeholders, in document order. -/
def placeholderKeys (sections : List Section) : List String :=
  sections.filterMap key?

theorem placeholderKeys_eq (sections : List Section) :
    placeholderKeys sections = (sections.map key?).filterMap id := by
  rw [placeholderKeys, List.filterMap_map]
  rfl

theorem mem_placeholderKeys {sections : List Section} {key : String} :
    key ∈ placeholderKeys sections ↔ some key ∈ sections.map key? := by
  rw [placeholderKeys, List.mem_filterMap, List.mem_map]

theorem exists_inner_mem_iff {sections : List Section} {key : String} :
    (∃ c, .inner key c ∈ sections) ↔ ∃ s ∈ sections, s.key? = some key ∧ s.isInner = true := by
  refine ⟨?_, ?_⟩
  · rintro ⟨c, hs⟩
    exact ⟨_, hs, rfl, rfl⟩
  · rintro ⟨s, hs, hkey, hinner⟩
    cases s with
    | static | dynamic => cases hinner
    | inner k c =>
      obtain rfl : k = key := Option.some.inj hkey
      exact ⟨c, hs⟩

theorem exists_dynamic_mem_iff {sections : List Section} {key : String} :
    (∃ c, .dynamic key c ∈ sections) ↔ ∃ s ∈ sections, s.key? = some key ∧ s.isInner = false := by
  refine ⟨?_, ?_⟩
  · rintro ⟨c, hs⟩
    exact ⟨_, hs, rfl, rfl⟩
  · rintro ⟨s, hs, hkey, hinner⟩
    cases s with
    | static => cases hkey
    | inner => cases hinner
    | dynamic k c =>
      obtain rfl : k = key := Option.some.inj hkey
      exact ⟨c, hs⟩

end Section

/-- A trimmed text does not end with a newline, so it is moved if it has one. -/
theorem Text.indent_trim_eq_iff (column : Nat) (text : String) :
    Text.indent column (trim text) = trim text ↔ column = 0 ∨ '\n' ∉ (trim text).toList := by
  have hlast : (trim text).toList.getLast? ≠ some '\n' := by
    intro hlast
    rw [toList_trim] at hlast
    have hblank : isBlank '\n' = false := isBlank_of_mem_getLast?_trimChars hlast
    exact absurd hblank (by decide)
  rw [← indentChars_eq_self_iff hlast, ← String.toList_inj, toList_indent]

namespace Template

open Section (placeholderKeys SamePlaceholders)

variable {t : Template} {column : Nat} {sections sections₀ : List Section}

/-- **Position by position, the key at a column is the one at column 0, indented.** -/
theorem Settled.map_key?_sections (h : t.Settled) (hsections₀ : t.sections? 0 = some sections₀)
    (hsections : t.sections? column = some sections) :
    sections.map Section.key? = sections₀.map fun s => s.key?.map (Text.indent column) := by
  obtain ⟨raw₀, hraw₀, rfl⟩ :=
    exists_parse_of_mem_variants h.variants (h.sections?_eq_some_iff.mp hsections₀)
  obtain ⟨raw, hraw, rfl⟩ :=
    exists_parse_of_mem_variants h.variants (h.sections?_eq_some_iff.mp hsections)
  rw [Text.indent_zero] at hraw₀
  obtain ⟨raw', hraw', hkeys⟩ := Section.map_key?_parse_indent hraw₀ column
  obtain rfl : raw = raw' := Except.ok.inj (hraw.symm.trans hraw')
  simpa [Function.comp_def] using hkeys

/-- A placeholder is an inner one when the key that it has in its variant is bound. -/
theorem Settled.isInner_eq (h : t.Settled) (hsections : t.sections? column = some sections) :
    ∀ s ∈ sections, s.isInner = s.key?.any t.binds := by
  obtain ⟨raw, hraw, rfl⟩ :=
    exists_parse_of_mem_variants h.variants (h.sections?_eq_some_iff.mp hsections)
  intro s hs
  obtain ⟨s₀, hs₀, rfl⟩ := List.mem_map.mp hs
  rcases Section.mem_parse_cases hraw hs₀ with ⟨copied, rfl⟩ | ⟨key, c, rfl⟩
  · rfl
  · cases hkey : t.binds (Text.trim key) with
    | true =>
      rw [Section.key?_bind, Section.bind_dynamic_of_bound hkey, Section.key?, Option.any_some,
        hkey]
      rfl
    | false =>
      rw [Section.key?_bind, Section.bind_dynamic_of_free hkey, Section.key?, Option.any_some, hkey]
      rfl

theorem Settled.keys_eq (h : t.Settled) (hsections₀ : t.sections? 0 = some sections₀) :
    t.keys = (placeholderKeys sections₀).eraseDups := by
  obtain ⟨sections₀', hsections₀', hkeys⟩ := h.variantsFit.keys
  obtain rfl := Option.some.inj (hsections₀.symm.trans hsections₀')
  exact hkeys

theorem Settled.mem_keys_iff (h : t.Settled) (hsections₀ : t.sections? 0 = some sections₀)
    {key : String} : key ∈ t.keys ↔ some key ∈ sections₀.map Section.key? := by
  rw [h.keys_eq hsections₀, List.mem_eraseDups, Section.mem_placeholderKeys]

/-- **The keys that are moved are those with a newline.** -/
theorem Settled.indent_keys_iff (h : t.Settled) (column : Nat) :
    (∀ key ∈ t.keys, Text.indent column key = key) ↔
      column = 0 ∨ ∀ key ∈ t.keys, '\n' ∉ key.toList := by
  have hkey : ∀ key ∈ t.keys, Text.indent column key = key ↔ column = 0 ∨ '\n' ∉ key.toList := by
    intro key hmem
    obtain ⟨raw, hraw, hsections₀⟩ := h.exists_parse h.zero_mem
    rw [h.mem_keys_iff hsections₀, List.map_map] at hmem
    simp only [Function.comp_def, Section.key?_bind] at hmem
    obtain ⟨text, rfl⟩ := Section.exists_trim_of_parse hraw hmem
    exact Text.indent_trim_eq_iff column text
  rw [forall₂_congr hkey]
  by_cases hcolumn : column = 0
  · simp [hcolumn]
  · simp [hcolumn]

/-- **The keys of a variant in document order** are those of column 0 exactly when none of them is
moved. -/
theorem Settled.placeholderKeys_eq_iff (h : t.Settled)
    (hsections₀ : t.sections? 0 = some sections₀)
    (hsections : t.sections? column = some sections) :
    placeholderKeys sections = placeholderKeys sections₀ ↔
      column = 0 ∨ ∀ key ∈ t.keys, '\n' ∉ key.toList := by
  have hindent : placeholderKeys sections =
      (placeholderKeys sections₀).map (Text.indent column) := by
    rw [Section.placeholderKeys_eq, h.map_key?_sections hsections₀ hsections, List.filterMap_map,
      placeholderKeys, List.map_filterMap]
    rfl
  calc placeholderKeys sections = placeholderKeys sections₀
      ↔ ∀ key ∈ placeholderKeys sections₀, Text.indent column key = key := by
        have hmap := List.map_inj_left (f := Text.indent column) (g := fun key => key)
          (l := placeholderKeys sections₀)
        rw [List.map_id'] at hmap
        rw [hindent, hmap]
    _ ↔ ∀ key ∈ t.keys, Text.indent column key = key := by
        simp only [h.mem_keys_iff hsections₀, Section.mem_placeholderKeys]
    _ ↔ _ := h.indent_keys_iff column

/-- **Without newlines in the keys, the variants have the same placeholders.** -/
theorem Settled.samePlaceholders (h : t.Settled) (hsections₀ : t.sections? 0 = some sections₀)
    (hsections : t.sections? column = some sections)
    (hplain : column = 0 ∨ ∀ key ∈ t.keys, '\n' ∉ key.toList) :
    SamePlaceholders sections₀ sections := by
  have hkept := (h.indent_keys_iff column).mpr hplain
  have hkeys : sections.map Section.key? = sections₀.map Section.key? := by
    rw [h.map_key?_sections hsections₀ hsections]
    refine List.map_congr_left fun s hs => ?_
    cases hkey : s.key? with
    | none => rfl
    | some key =>
      have hmem : key ∈ t.keys :=
        (h.mem_keys_iff hsections₀).mpr (List.mem_map.mpr ⟨s, hs, hkey⟩)
      rw [Option.map_some, hkept key hmem]
  refine ⟨hkeys, ?_⟩
  calc sections.map Section.isInner
      = (sections.map Section.key?).map fun key? => key?.any t.binds := by
        rw [List.map_map]
        exact List.map_congr_left (h.isInner_eq hsections)
    _ = (sections₀.map Section.key?).map fun key? => key?.any t.binds := by rw [hkeys]
    _ = sections₀.map Section.isInner := by
        rw [List.map_map]
        exact (List.map_congr_left (h.isInner_eq hsections₀)).symm

/-- **What a variant asks for**: the declared keys, those that are bound by inner placeholders and
the others by dynamic ones. -/
theorem Settled.exists_key_iff (h : t.Settled) (hsections : t.sections? column = some sections)
    (hplain : column = 0 ∨ ∀ key ∈ t.keys, '\n' ∉ key.toList) (key : String) (bound : Bool) :
    (∃ s ∈ sections, s.key? = some key ∧ s.isInner = bound) ↔
      key ∈ t.keys ∧ t.binds key = bound := by
  obtain ⟨_, -, hsections₀⟩ := h.exists_parse h.zero_mem
  have hkeys := (h.samePlaceholders hsections₀ hsections hplain).1
  have hmem : key ∈ t.keys ↔ ∃ s ∈ sections, s.key? = some key := by
    rw [h.mem_keys_iff hsections₀, ← hkeys, List.mem_map]
  have hinner : ∀ s ∈ sections, s.key? = some key → s.isInner = t.binds key := by
    intro s hs hkey
    rw [h.isInner_eq hsections s hs, hkey, Option.any_some]
  rw [hmem]
  refine ⟨?_, ?_⟩
  · rintro ⟨s, hs, hkey, hbound⟩
    exact ⟨⟨s, hs, hkey⟩, (hinner s hs hkey).symm.trans hbound⟩
  · rintro ⟨⟨s, hs, hkey⟩, hbound⟩
    exact ⟨s, hs, hkey, (hinner s hs hkey).trans hbound⟩

end Template

/-! ### Templates that can be made -/

namespace Session

open Section (placeholderKeys SamePlaceholders)

/-- **The placeholders of the variants**, of every template that can be made. The keys at a column
are those at column 0, indented. So they are the same exactly when no key has a newline, at any
column but 0, and then a variant has the same placeholders, inner ones in the same places. In each
variant the inner placeholders are those whose keys are bound. -/
theorem placeholders_of_find? {commands : List Command} {address : Address} {t : Template}
    (h : (ofCommands commands).find? address = some t) {column : Nat}
    (hcolumn : column ∈ t.columns) :
    ∃ sections₀ sections, t.sections? 0 = some sections₀ ∧ t.sections? column = some sections ∧
      sections.map Section.key? = sections₀.map (fun s => s.key?.map (Text.indent column)) ∧
      (placeholderKeys sections = placeholderKeys sections₀ ↔
        column = 0 ∨ ∀ key ∈ t.keys, '\n' ∉ key.toList) ∧
      ((column = 0 ∨ ∀ key ∈ t.keys, '\n' ∉ key.toList) →
        SamePlaceholders sections₀ sections ∧ t.keys = (placeholderKeys sections).eraseDups) ∧
      ∀ s ∈ sections, ∀ key, s.key? = some key → (s.isInner = true ↔ key ∈ t.innerKeys) := by
  have ht := (all_settled_of_find? h).here
  obtain ⟨raw₀, -, hsections₀⟩ := ht.exists_parse ht.zero_mem
  obtain ⟨raw, -, hsections⟩ := ht.exists_parse hcolumn
  have hiff := ht.placeholderKeys_eq_iff hsections₀ hsections
  refine ⟨_, _, hsections₀, hsections, ht.map_key?_sections hsections₀ hsections, hiff,
    fun hplain => ⟨ht.samePlaceholders hsections₀ hsections hplain, ?_⟩, fun s hs key hkey => ?_⟩
  · rw [hiff.mpr hplain]
    exact ht.keys_eq hsections₀
  · rw [ht.isInner_eq hsections s hs, hkey, Option.any_some, Template.binds, decide_eq_true_iff]

theorem placeholders_of_find?_nested :
    ∃ t sections₀ sections, (ofCommands nested).find? ⟨"page", ["list"]⟩ = some t ∧
      2 ∈ t.columns ∧ t.sections? 0 = some sections₀ ∧ t.sections? 2 = some sections ∧
      SamePlaceholders sections₀ sections ∧ ["item"] = (placeholderKeys sections).eraseDups := by
  have hlist : ((ofCommands nested).find? ⟨"page", ["list"]⟩).map
      (fun t => (t.columns, t.keys)) = some ([0, 2], ["item"]) := by
    decide +kernel
  obtain ⟨t, ht, hlist⟩ := Option.map_eq_some_iff.mp hlist
  obtain ⟨hcolumns, hkeys⟩ := Prod.mk.inj hlist
  have hcolumn : 2 ∈ t.columns := by
    rw [hcolumns]
    decide
  obtain ⟨sections₀, sections, hsections₀, hsections, -, -, hsame, -⟩ :=
    placeholders_of_find? ht hcolumn
  rw [hkeys] at hsame
  obtain ⟨hsame, hkeys'⟩ := hsame (Or.inr (by decide))
  exact ⟨t, sections₀, sections, ht, hcolumn, hsections₀, hsections, hsame, hkeys'⟩

/-- A page with an inner template at column 2 whose key has two lines. -/
def spanning : List Command :=
  [.compile "page" "x\n  {{F}}" {}, .compile "pair" "\x7b\x7ba\nb\x7d\x7d" {},
    .register ⟨"page", []⟩ "F" ⟨"pair", []⟩]

/-- The variant for column 2 asks for another key than the one that is declared, so data that passes
the check is not rendered. -/
theorem placeholderKeys_spanning :
    (∃ t sections₀ sections, (ofCommands spanning).find? ⟨"page", ["F"]⟩ = some t ∧
      t.sections? 0 = some sections₀ ∧ t.sections? 2 = some sections ∧
      placeholderKeys sections₀ = ["a\nb"] ∧ placeholderKeys sections = ["a\n  b"]) ∧
    ∃ t, (ofCommands spanning).find? ⟨"page", []⟩ = some t ∧
      let data := Value.record [("F", .record [("a\nb", .text "v")])]
      t.check data = .ok () ∧ t.renderUnchecked data = "x\n  " := by
  have hpair : ((ofCommands spanning).find? ⟨"page", ["F"]⟩).map
      (fun t => ((t.sections? 0).map placeholderKeys, (t.sections? 2).map placeholderKeys)) =
        some (some ["a\nb"], some ["a\n  b"]) := by
    decide +kernel
  have hpage : ((ofCommands spanning).find? ⟨"page", []⟩).map
      (fun t => ((t.check (.record [("F", .record [("a\nb", .text "v")])])).toBool,
        t.renderUnchecked (.record [("F", .record [("a\nb", .text "v")])]))) =
          some (true, "x\n  ") := by
    decide +kernel
  obtain ⟨t, ht, hpair⟩ := Option.map_eq_some_iff.mp hpair
  obtain ⟨h₀, h₂⟩ := Prod.mk.inj hpair
  obtain ⟨sections₀, hsections₀, hkeys₀⟩ := Option.map_eq_some_iff.mp h₀
  obtain ⟨sections, hsections, hkeys⟩ := Option.map_eq_some_iff.mp h₂
  obtain ⟨u, hu, hpage⟩ := Option.map_eq_some_iff.mp hpage
  obtain ⟨hcheck, hrender⟩ := Prod.mk.inj hpage
  obtain ⟨_, hcheck⟩ := Outcome.exists_of_toBool hcheck
  exact ⟨⟨t, sections₀, sections, ht, hsections₀, hsections, hkeys₀, hkeys⟩, u, hu, hcheck, hrender⟩

end Session

end Stencil
