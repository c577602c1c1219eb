import Stencil.Proofs.Entries
import Stencil.Value.Batch

/-!
# The keys of records

A record is a list of fields, and a value can only be taken as a finite map of its fields if no key
is twice among them, in the value itself and in all that it holds (`Value.Distinct`). All ways to
make a record see to that, be it from pairs (`Value.distinct_ofPairs`) or in a batch
(`Batch.distinct_toValue`), since a value put under a key takes the place of the one that was there.

Values whose fields are in ascending order (`Value.Ascending`) are such values. Both are properties
of the lists of keys at every level (`Value.EachKeys`), which go on to hold of whatever is found in
a value.
-/

namespace Stencil

namespace Value

/-! ### Induction -/

/-- **Induction on values**: what holds of a record or a list whenever it holds of what is in it
holds of all values, if it holds of nothing and of texts. -/
@[elab_as_elim] theorem induction {P : Value → Prop} (null : P null) (text : ∀ s, P (text s))
    (record : ∀ fields, (∀ key v, (key, v) ∈ fields → P v) → P (record fields))
    (list : ∀ items, (∀ v ∈ items, P v) → P (list items)) (v : Value) : P v := by
  refine @Value.rec P (fun fields => ∀ key v, (key, v) ∈ fields → P v)
    (fun items => ∀ v ∈ items, P v) (fun field => P field.2) null text record list
    ?noFields ?fields ?noItems ?items ?field v
  case noFields =>
    intro key v hmem
    exact absurd hmem List.not_mem_nil
  case fields =>
    intro field rest ihField ihRest key v hmem
    rcases List.mem_cons.mp hmem with rfl | hrest
    · exact ihField
    · exact ihRest key v hrest
  case noItems =>
    intro v hmem
    exact absurd hmem List.not_mem_nil
  case items =>
    intro item rest ihItem ihRest v hmem
    rcases List.mem_cons.mp hmem with rfl | hrest
    · exact ihItem
    · exact ihRest v hrest
  case field =>
    intro key v ih
    exact ih

/-! ### The keys of records -/

/-- The keys of every record, at any depth, have a property as a list. -/
inductive EachKeys (P : List String → Prop) : Value → Prop where
  | null : EachKeys P null
  | text (s : String) : EachKeys P (text s)
  | record {fields : List (String × Value)} (here : P (fields.map Prod.fst))
    (below : ∀ key v, (key, v) ∈ fields → EachKeys P v) : EachKeys P (record fields)
  | list {items : List Value} (below : ∀ v ∈ items, EachKeys P v) : EachKeys P (list items)

/-- No record has a key twice. -/
def Distinct (v : Value) : Prop :=
  v.EachKeys List.Nodup

/-- The fields of every record are in ascending order of their keys. -/
def Ascending (v : Value) : Prop :=
  v.EachKeys (List.Pairwise (· < ·))

variable {P Q : List String → Prop} {v w : Value} {key : String}

@[simp] theorem eachKeys_null : null.EachKeys P :=
  .null

@[simp] theorem eachKeys_text (s : String) : (text s).EachKeys P :=
  .text s

@[simp] theorem eachKeys_record_iff {fields : List (String × Value)} :
    (record fields).EachKeys P ↔
      P (fields.map Prod.fst) ∧ ∀ field ∈ fields, field.2.EachKeys P := by
  refine ⟨fun h => ?_, fun h => .record h.1 fun key v hmem => h.2 (key, v) hmem⟩
  cases h with
  | record here below => exact ⟨here, fun field hmem => below field.1 field.2 hmem⟩

@[simp] theorem eachKeys_list_iff {items : List Value} :
    (list items).EachKeys P ↔ ∀ v ∈ items, v.EachKeys P := by
  refine ⟨fun h => ?_, .list⟩
  cases h with
  | list below => exact below

theorem EachKeys.imp (hPQ : ∀ keys, P keys → Q keys) (h : v.EachKeys P) : v.EachKeys Q := by
  induction h with
  | null => exact .null
  | text s => exact .text s
  | record here _ ih => exact .record (hPQ _ here) ih
  | list _ ih => exact .list ih

theorem EachKeys.of_mem_records (h : v.EachKeys P) (hw : w ∈ v.records) : w.EachKeys P := by
  cases h with
  | null => exact absurd hw List.not_mem_nil
  | text s =>
    obtain rfl := List.mem_singleton.mp hw
    exact .text s
  | record here below =>
    obtain rfl := List.mem_singleton.mp hw
    exact .record here below
  | list below => exact below w hw

theorem EachKeys.of_field? (h : v.EachKeys P) (hw : v.field? key = some w) : w.EachKeys P := by
  cases v with
  | record fields =>
    cases h with | record _ below =>
    exact below key w (Entries.mem_of_lookup_eq_some hw)
  | null | text | list =>
    -- a unit without fields shows itself
    simp only [field?, Option.ite_none_right_eq_some, Option.some.injEq] at hw
    rw [← hw.2]
    assumption

theorem EachKeys.of_mem_recordsAt (h : v.EachKeys P) (hw : w ∈ v.recordsAt key) :
    w.EachKeys P := by
  unfold recordsAt at hw
  split at hw
  · next found hfound => exact (h.of_field? hfound).of_mem_records hw
  · exact absurd hw List.not_mem_nil

/-! ### Records from pairs -/

/-- **No key is twice** in a record made from pairs, even if it is among them twice. -/
theorem distinct_ofPairs {pairs : List (String × Value)} (h : ∀ pair ∈ pairs, pair.2.Distinct) :
    (ofPairs pairs).Distinct :=
  .record (Entries.nodup_keys_ofPairs pairs) fun key v hmem =>
    h (key, v) (Entries.mem_of_mem_ofPairs hmem)

theorem distinct_textFields (pairs : List (String × String)) :
    (record (textFields pairs)).Distinct := by
  refine distinct_ofPairs fun pair hmem => ?_
  obtain ⟨_, _, rfl⟩ := List.mem_map.mp hmem
  exact .text _

end Value

/-! ### Batches -/

namespace Batch

/-- Every record of a batch has distinct keys, at any depth. -/
def Distinct (b : Batch) : Prop :=
  ∀ fields ∈ b.records, (Value.record fields).Distinct

variable {b : Batch}

theorem Distinct.step (h : b.Distinct) (step : Step) : (b.step step).Distinct := by
  cases step with
  | add pairs =>
    intro fields hmem
    rcases List.mem_append.mp hmem with hmem | hmem
    · exact h fields hmem
    · obtain rfl := List.mem_singleton.mp hmem
      exact Value.distinct_textFields pairs
  | addAll records =>
    intro fields hmem
    rcases List.mem_append.mp hmem with hmem | hmem
    · exact h fields hmem
    · obtain ⟨pairs, -, rfl⟩ := List.mem_map.mp hmem
      exact Value.distinct_textFields pairs
  | addInner key records =>
    intro fields hmem
    obtain ⟨existing, hexisting, rfl⟩ := List.mem_map.mp hmem
    have hdistinct : (Value.record existing).Distinct := by
      split at hexisting
      · obtain rfl := List.mem_singleton.mp hexisting
        exact .record List.nodup_nil fun _ _ hmem => absurd hmem List.not_mem_nil
      · exact h existing hexisting
    have hinner : (Value.list (records.map fun pairs => .record (Value.textFields pairs))).Distinct
        := by
      refine .list fun v hv => ?_
      obtain ⟨pairs, -, rfl⟩ := List.mem_map.mp hv
      exact Value.distinct_textFields pairs
    -- the list takes the place of what was under its key, or makes a new last field
    cases hdistinct with | record hkeys hbelow =>
    refine .record (Entries.nodup_keys_insert hkeys) fun k v hv => ?_
    rcases Entries.mem_insert hv with heq | hv
    · obtain ⟨-, rfl⟩ := Prod.mk.inj heq
      exact hinner
    · exact hbelow k v hv

theorem Distinct.foldl (h : b.Distinct) (steps : List Step) :
    (steps.foldl Batch.step b).Distinct := by
  induction steps generalizing b with
  | nil => exact h
  | cons step rest ih => exact ih (h.step step)

/-- **No key is twice** in a record of a batch, whatever steps made it. -/
theorem distinct_toValue (steps : List Step) : (run steps).toValue.Distinct := by
  have hrun : (run steps).Distinct :=
    Distinct.foldl (fun _ hmem => absurd hmem List.not_mem_nil) steps
  refine .list fun v hv => ?_
  obtain ⟨fields, hmem, rfl⟩ := List.mem_map.mp hv
  exact hrun fields hmem

end Batch

end Stencil
