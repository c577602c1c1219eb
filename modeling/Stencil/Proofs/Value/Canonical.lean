import Stencil.Proofs.Entries.Sorted
import Stencil.Proofs.Value.Distinct

/-!
# Canonical values

The **canonical** form of a value has the fields of every record in ascending order of their keys
(`Value.canonical`, `Value.ascending_canonical`). A value with its fields in ascending order is its
own canonical form (`Value.canonical_of_ascending`).

For values without a key twice in a record the canonical form says which values are equal: two
values are equal up to the order of fields exactly when they have one canonical form
(`Value.same_iff`). Looking at the canonical form gives the canonical forms of what is found in the
value (`Value.records_canonical`, `Value.Distinct.field?_canonical`), since a look-up does not
depend on the order of the fields.
-/

namespace Stencil

namespace Value

variable {v w : Value}

theorem Ascending.distinct (h : v.Ascending) : v.Distinct :=
  h.imp fun _ => Entries.nodup_of_pairwise_lt

/-! ### Canonical form -/

mutual

/-- The value with the fields of every record in ascending order. -/
def canonical : Value → Value
  | null => null
  | text s => text s
  | record fields => record (Entries.sortedOfPairs (canonicalFields fields))
  | list items => list (canonicalItems items)

def canonicalFields : List (String × Value) → List (String × Value)
  | [] => []
  | (key, v) :: rest => (key, v.canonical) :: canonicalFields rest

def canonicalItems : List Value → List Value
  | [] => []
  | v :: rest => v.canonical :: canonicalItems rest

end

@[simp] theorem canonical_null : null.canonical = null := by
  rw [canonical]

@[simp] theorem canonical_text (s : String) : (text s).canonical = text s := by
  rw [canonical]

theorem canonicalFields_eq_map (fields : List (String × Value)) :
    canonicalFields fields = fields.map fun field => (field.1, field.2.canonical) := by
  induction fields with
  | nil => rw [canonicalFields, List.map_nil]
  | cons field rest ih => rw [canonicalFields, ih, List.map_cons]

theorem map_fst_canonicalFields (fields : List (String × Value)) :
    (canonicalFields fields).map Prod.fst = fields.map Prod.fst := by
  rw [canonicalFields_eq_map, List.map_map]
  rfl

theorem mem_canonicalFields {fields : List (String × Value)} {key : String} :
    (key, w) ∈ canonicalFields fields ↔ ∃ v, (key, v) ∈ fields ∧ v.canonical = w := by
  rw [canonicalFields_eq_map, List.mem_map]
  refine ⟨?_, ?_⟩
  · rintro ⟨⟨k, v⟩, hmem, heq⟩
    obtain ⟨rfl, hv⟩ := Prod.mk.inj heq
    exact ⟨v, hmem, hv⟩
  · rintro ⟨v, hmem, rfl⟩
    exact ⟨(key, v), hmem, rfl⟩

theorem canonical_record (fields : List (String × Value)) :
    (record fields).canonical = record (Entries.sortedOfPairs (canonicalFields fields)) := by
  rw [canonical]

theorem canonical_list (items : List Value) :
    (list items).canonical = list (items.map canonical) := by
  have hitems : canonicalItems items = items.map canonical := by
    induction items with
    | nil => rw [canonicalItems, List.map_nil]
    | cons v rest ih => rw [canonicalItems, ih, List.map_cons]
  rw [canonical, hitems]

/-- **The canonical form is sorted.** -/
theorem ascending_canonical (v : Value) : v.canonical.Ascending := by
  induction v using Value.induction with
  | null =>
    rw [canonical_null]
    exact .null
  | text s =>
    rw [canonical_text]
    exact .text s
  | record fields ih =>
    rw [canonical_record]
    refine .record (Entries.pairwise_sortedOfPairs _) fun key w hmem => ?_
    obtain ⟨v, hfield, rfl⟩ := mem_canonicalFields.mp (Entries.mem_sortedOfPairs hmem)
    exact ih key v hfield
  | list items ih =>
    rw [canonical_list]
    refine .list fun w hmem => ?_
    obtain ⟨v, hv, rfl⟩ := List.mem_map.mp hmem
    exact ih v hv

/-- **A sorted value is its own canonical form.** -/
theorem canonical_of_ascending (h : v.Ascending) : v.canonical = v := by
  induction h with
  | null => exact canonical_null
  | text s => exact canonical_text s
  | @record fields here _ ih =>
    have hfields : canonicalFields fields = fields := by
      rw [canonicalFields_eq_map]
      refine (List.map_congr_left (g := fun field => field) fun field hmem => ?_).trans
        (List.map_id' fields)
      exact Prod.ext rfl (ih field.1 field.2 hmem)
    rw [canonical_record, hfields, Entries.sortedOfPairs_of_pairwise here]
  | @list items _ ih =>
    rw [canonical_list, List.map_congr_left (g := fun v => v) ih, List.map_id']

/-! ### Equality up to the order of fields -/

theorem sameFields_eq_true_iff {fields others : List (String × Value)} :
    sameFields fields others = true ↔
      ∀ key v, (key, v) ∈ fields → ∃ w, others.lookup key = some w ∧ v.same w = true := by
  induction fields with
  | nil => simp [sameFields]
  | cons field rest ih =>
    obtain ⟨key, v⟩ := field
    rw [sameFields, Bool.and_eq_true, ih]
    refine ⟨?_, ?_⟩
    · rintro ⟨hv, hrest⟩ k u hmem
      rcases List.mem_cons.mp hmem with heq | hmem
      · obtain ⟨rfl, rfl⟩ := Prod.mk.inj heq
        split at hv
        · next w hw => exact ⟨w, hw, hv⟩
        · cases hv
      · exact hrest k u hmem
    · intro h
      obtain ⟨w, hw, hvw⟩ := h key v List.mem_cons_self
      refine ⟨?_, fun k u hmem => h k u (List.mem_cons_of_mem _ hmem)⟩
      rw [hw]
      exact hvw

theorem sameItems_eq_true_iff {items others : List Value}
    (h : ∀ v ∈ items, ∀ w ∈ others, (v.same w = true ↔ v.canonical = w.canonical)) :
    sameItems items others = true ↔ items.map canonical = others.map canonical := by
  induction items generalizing others with
  | nil => cases others <;> simp [sameItems]
  | cons v rest ih =>
    cases others with
    | nil => simp [sameItems]
    | cons w others =>
      have hrest := ih fun u hu u' hu' =>
        h u (List.mem_cons_of_mem _ hu) u' (List.mem_cons_of_mem _ hu')
      rw [sameItems, Bool.and_eq_true, h v List.mem_cons_self w List.mem_cons_self, hrest,
        List.map_cons, List.map_cons, List.cons.injEq]

/-- Records have equal fields when the fields in canonical form are the same but for their order. -/
theorem sameFields_iff_perm {fields others : List (String × Value)}
    (distinct : (fields.map Prod.fst).Nodup) (distinct' : (others.map Prod.fst).Nodup)
    (h : ∀ key v w, (key, v) ∈ fields → (key, w) ∈ others →
      (v.same w = true ↔ v.canonical = w.canonical)) :
    fields.length = others.length ∧ sameFields fields others = true ↔
      (canonicalFields fields).Perm (canonicalFields others) := by
  rw [sameFields_eq_true_iff]
  refine ⟨?_, fun hperm => ⟨?_, fun key v hv => ?_⟩⟩
  · rintro ⟨hlength, hfields⟩
    have hlength' : (canonicalFields others).length = (canonicalFields fields).length := by
      rw [canonicalFields_eq_map, canonicalFields_eq_map, List.length_map, List.length_map,
        hlength]
    rw [← map_fst_canonicalFields] at distinct
    -- there are as many on both sides, so it is enough to find each of the first among the others
    refine Entries.perm_of_subset distinct hlength' fun field hfield => ?_
    obtain ⟨key, u⟩ := field
    obtain ⟨v, hv, rfl⟩ := mem_canonicalFields.mp hfield
    obtain ⟨w, hlookup, hsame⟩ := hfields key v hv
    have hw := Entries.mem_of_lookup_eq_some hlookup
    exact mem_canonicalFields.mpr ⟨w, hw, ((h key v w hv hw).mp hsame).symm⟩
  · rw [canonicalFields_eq_map, canonicalFields_eq_map] at hperm
    simpa using hperm.length_eq
  · have hmem := hperm.mem_iff.mp (mem_canonicalFields.mpr ⟨v, hv, rfl⟩)
    obtain ⟨w, hw, heq⟩ := mem_canonicalFields.mp hmem
    exact ⟨w, (Entries.lookup_eq_some_iff_mem distinct').mpr hw, (h key v w hv hw).mpr heq.symm⟩

/-- **Equal values are those with the same canonical form**, if no record has a key twice. -/
theorem same_iff (hv : v.Distinct) (hw : w.Distinct) :
    v.same w = true ↔ v.canonical = w.canonical := by
  induction v using Value.induction generalizing w with
  | null => cases w <;> simp [same, canonical]
  | text s => cases w <;> simp [same, canonical]
  | record fields ih =>
    cases w with
    | null | text | list => simp [same, canonical]
    | record others =>
      cases hv with | record distinct hbelow =>
      cases hw with | record distinct' hbelow' =>
      have hperm := sameFields_iff_perm distinct distinct' fun key u u' hu hu' =>
        ih key u hu (hbelow key u hu) (hbelow' key u' hu')
      rw [← map_fst_canonicalFields] at distinct distinct'
      rw [same, Bool.and_eq_true, beq_iff_eq, hperm, canonical_record, canonical_record,
        record.injEq, Entries.sortedOfPairs_eq_iff distinct distinct']
  | list items ih =>
    cases w with
    | null | text | record => simp [same, canonical]
    | list others =>
      cases hv with | list hbelow =>
      cases hw with | list hbelow' =>
      rw [same, canonical_list, canonical_list, list.injEq]
      exact sameItems_eq_true_iff fun u hu u' hu' => ih u hu (hbelow u hu) (hbelow' u' hu')

/-! ### Looking at a canonical form -/

@[simp] theorem records_canonical (v : Value) : v.canonical.records = v.records.map canonical := by
  cases v with
  | null => rw [canonical_null, records_null, List.map_nil]
  | text s => simp [records]
  | record fields => simp [records, canonical_record]
  | list items => rw [canonical_list, records_list, records_list]

@[simp] theorem text?_canonical (v : Value) : v.canonical.text? = v.text? := by
  cases v with
  | null => rw [canonical_null]
  | text s => rw [canonical_text]
  | record fields =>
    rw [canonical_record]
    rfl
  | list items =>
    rw [canonical_list]
    rfl

theorem Distinct.field?_canonical (h : v.Distinct) (key : String) :
    v.canonical.field? key = (v.field? key).map canonical := by
  cases h with
  | record distinct _ =>
    rw [← map_fst_canonicalFields] at distinct
    rw [canonical_record, field?_record, field?_record, Entries.lookup_sortedOfPairs distinct,
      canonicalFields_eq_map, Entries.lookup_map_values]
  | null | text | list =>
    simp only [canonical, field?]
    split
    · simp [canonical]
    · rfl

theorem Distinct.recordsAt_canonical (h : v.Distinct) (key : String) :
    v.canonical.recordsAt key = (v.recordsAt key).map canonical := by
  rw [recordsAt, recordsAt, h.field?_canonical]
  cases v.field? key with
  | none => rfl
  | some found => exact records_canonical found

end Value

end Stencil
