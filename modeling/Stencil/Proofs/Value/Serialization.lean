import Stencil.Proofs.Value.Canonical
import Stencil.Value.Datum

/-!
# Values to JSON and back

Every value can be serialised, and what is taken back is its canonical form
(`Value.reserialize?_eq`): the objects in between keep their fields in ascending order, and nothing
else happens on the way.

A JSON value loses something when it is taken as a value: booleans and numbers become the texts that
they are written with. The JSON value with these texts in their places is the **spelled** one
(`Json.spelled`), and it is what the value is serialised to (`Value.toJson?_toDatum_ofJson`).
-/

namespace Stencil

namespace Json

mutual

/-- The JSON value with a text in the place of every boolean and every number. -/
def spelled : Json → Json
  | null => null
  | bool true => string "true"
  | bool false => string "false"
  | number n => string n.text
  | string s => string s
  | array items => array (spelledItems items)
  | object fields => object (spelledFields fields)

def spelledItems : List Json → List Json
  | [] => []
  | item :: rest => item.spelled :: spelledItems rest

def spelledFields : List (String × Json) → List (String × Json)
  | [] => []
  | (key, item) :: rest => (key, item.spelled) :: spelledFields rest

end

/-- The fields of every object are in ascending order of their keys, without a key twice. -/
inductive Ascending : Json → Prop where
  | null : Ascending null
  | bool (b : Bool) : Ascending (bool b)
  | number (n : Number) : Ascending (number n)
  | string (s : String) : Ascending (string s)
  | array {items : List Json} (below : ∀ item ∈ items, Ascending item) : Ascending (array items)
  | object {fields : List (String × Json)} (here : (fields.map Prod.fst).Pairwise (· < ·))
    (below : ∀ key item, (key, item) ∈ fields → Ascending item) : Ascending (object fields)

attribute [simp] Ascending.null Ascending.bool Ascending.number Ascending.string

@[simp] theorem ascending_array_iff {items : List Json} :
    (array items).Ascending ↔ ∀ item ∈ items, item.Ascending := by
  refine ⟨fun h => ?_, .array⟩
  cases h with
  | array below => exact below

@[simp] theorem ascending_object_iff {fields : List (String × Json)} :
    (object fields).Ascending ↔ (fields.map Prod.fst).Pairwise (· < ·) ∧
      ∀ field ∈ fields, field.2.Ascending := by
  refine ⟨fun h => ?_, fun h => .object h.1 fun key item hmem => h.2 (key, item) hmem⟩
  cases h with
  | object here below => exact ⟨here, fun field hmem => below field.1 field.2 hmem⟩

end Json

namespace Value

/-! ### From values -/

theorem toJsonFields_eq_map (fields : List (String × Value)) :
    toJsonFields fields = fields.map fun field => (field.1, field.2.toJson) := by
  induction fields with
  | nil => rw [toJsonFields, List.map_nil]
  | cons field rest ih => rw [toJsonFields, ih, List.map_cons]

mutual

/-- **A value is serialised in its canonical form.** -/
theorem toJson?_toDatum (v : Value) : v.toDatum.toJson? = some v.canonical.toJson := by
  cases v with
  | null => rw [toDatum, Datum.toJson?, canonical, toJson]
  | text s => rw [toDatum, Datum.toJson?, canonical, toJson]
  | record fields =>
    -- an object sorts the fields after their values are serialised, the canonical form before
    rw [toDatum, Datum.toJson?, entriesToJson?_toDatumFields fields, Option.map_some,
      Json.ofFields, toJsonFields_eq_map, Entries.sortedOfPairs_map, canonical, toJson,
      toJsonFields_eq_map]
  | list items =>
    rw [toDatum, Datum.toJson?, itemsToJson?_toDatumItems items, Option.map_some, canonical,
      toJson]

theorem entriesToJson?_toDatumFields (fields : List (String × Value)) :
    Datum.entriesToJson? (toDatumFields fields) =
      some (toJsonFields (canonicalFields fields)) := by
  cases fields with
  | nil => rw [toDatumFields, Datum.entriesToJson?, canonicalFields, toJsonFields]
  | cons field rest =>
    obtain ⟨key, v⟩ := field
    rw [toDatumFields, Datum.entriesToJson?, toJson?_toDatum v, entriesToJson?_toDatumFields rest,
      canonicalFields, toJsonFields]
    rfl

theorem itemsToJson?_toDatumItems (items : List Value) :
    Datum.itemsToJson? (toDatumItems items) = some (toJsonItems (canonicalItems items)) := by
  cases items with
  | nil => rw [toDatumItems, Datum.itemsToJson?, canonicalItems, toJsonItems]
  | cons v rest =>
    rw [toDatumItems, Datum.itemsToJson?, toJson?_toDatum v, itemsToJson?_toDatumItems rest,
      canonicalItems, toJsonItems]
    rfl

end

mutual

/-- The JSON form of a value keeps all of it. -/
theorem ofJson_toJson (v : Value) : ofJson v.toJson = v := by
  cases v with
  | null => rw [toJson, ofJson]
  | text s => rw [toJson, ofJson]
  | record fields => rw [toJson, ofJson, ofJsonFields_toJsonFields fields]
  | list items => rw [toJson, ofJson, ofJsonItems_toJsonItems items]

theorem ofJsonFields_toJsonFields (fields : List (String × Value)) :
    ofJsonFields (toJsonFields fields) = fields := by
  cases fields with
  | nil => rw [toJsonFields, ofJsonFields]
  | cons field rest =>
    obtain ⟨key, v⟩ := field
    rw [toJsonFields, ofJsonFields, ofJson_toJson v, ofJsonFields_toJsonFields rest]

theorem ofJsonItems_toJsonItems (items : List Value) :
    ofJsonItems (toJsonItems items) = items := by
  cases items with
  | nil => rw [toJsonItems, ofJsonItems]
  | cons v rest => rw [toJsonItems, ofJsonItems, ofJson_toJson v, ofJsonItems_toJsonItems rest]

end

/-- **What is taken back is the canonical form**, and serialising never fails. -/
theorem reserialize?_eq (v : Value) : v.reserialize? = some v.canonical := by
  rw [reserialize?, ofDatum?, toJson?_toDatum, Option.map_some, ofJson_toJson]

/-! ### From JSON -/

mutual

theorem toJson_ofJson (j : Json) : (ofJson j).toJson = j.spelled := by
  cases j with
  | null => rw [ofJson, toJson, Json.spelled]
  | bool b =>
    cases b with
    | true => rw [ofJson, toJson, Json.spelled]
    | false => rw [ofJson, toJson, Json.spelled]
  | number n => rw [ofJson, toJson, Json.spelled]
  | string s => rw [ofJson, toJson, Json.spelled]
  | array items => rw [ofJson, toJson, Json.spelled, toJsonItems_ofJsonItems items]
  | object fields => rw [ofJson, toJson, Json.spelled, toJsonFields_ofJsonFields fields]

theorem toJsonItems_ofJsonItems (items : List Json) :
    toJsonItems (ofJsonItems items) = Json.spelledItems items := by
  cases items with
  | nil => rw [ofJsonItems, toJsonItems, Json.spelledItems]
  | cons item rest =>
    rw [ofJsonItems, toJsonItems, Json.spelledItems, toJson_ofJson item,
      toJsonItems_ofJsonItems rest]

theorem toJsonFields_ofJsonFields (fields : List (String × Json)) :
    toJsonFields (ofJsonFields fields) = Json.spelledFields fields := by
  cases fields with
  | nil => rw [ofJsonFields, toJsonFields, Json.spelledFields]
  | cons field rest =>
    obtain ⟨key, item⟩ := field
    rw [ofJsonFields, toJsonFields, Json.spelledFields, toJson_ofJson item,
      toJsonFields_ofJsonFields rest]

end

theorem ofJsonItems_eq_map (items : List Json) : ofJsonItems items = items.map ofJson := by
  induction items with
  | nil => rw [ofJsonItems, List.map_nil]
  | cons item rest ih => rw [ofJsonItems, ih, List.map_cons]

theorem ofJsonFields_eq_map (fields : List (String × Json)) :
    ofJsonFields fields = fields.map fun field => (field.1, ofJson field.2) := by
  induction fields with
  | nil => rw [ofJsonFields, List.map_nil]
  | cons field rest ih => rw [ofJsonFields, ih, List.map_cons]

theorem ascending_ofJson {j : Json} (h : j.Ascending) : (ofJson j).Ascending := by
  induction h with
  | null =>
    rw [ofJson]
    exact .null
  | bool b =>
    cases b with
    | true => exact .text "true"
    | false => exact .text "false"
  | number n =>
    rw [ofJson]
    exact .text n.text
  | string s =>
    rw [ofJson]
    exact .text s
  | @array items _ ih =>
    rw [ofJson, ofJsonItems_eq_map]
    refine .list fun v hv => ?_
    obtain ⟨item, hitem, rfl⟩ := List.mem_map.mp hv
    exact ih item hitem
  | @object fields here _ ih =>
    rw [ofJson, ofJsonFields_eq_map]
    refine .record ?_ fun key v hv => ?_
    · rw [List.map_map]
      exact here
    · obtain ⟨⟨k, item⟩, hitem, heq⟩ := List.mem_map.mp hv
      obtain ⟨-, rfl⟩ := Prod.mk.inj heq
      exact ih k item hitem

/-- **A JSON value that is taken as a value and serialised** has its booleans and numbers spelled
out, and is the same in all else. -/
theorem toJson?_toDatum_ofJson {j : Json} (h : j.Ascending) :
    (ofJson j).toDatum.toJson? = some j.spelled := by
  rw [toJson?_toDatum, canonical_of_ascending (ascending_ofJson h), toJson_ofJson]

end Value

end Stencil
