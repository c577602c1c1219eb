import Mathlib.Algebra.BigOperators.Ring.List
import Mathlib.Algebra.Ring.Nat
import Stencil.Proofs.Session
import Stencil.Proofs.Template.Alike

/-!
# The estimate, node by node

An estimate is made record by record, from the root of a template down to the inner templates. The
same number comes out node by node: each node contributes its own size as often as it is counted
(`Template.estimate_eq_sum_places`). The root is counted once for each record, and at least once. A
node further down is counted, for each record with which the node above it is reached, once for each
record that it holds for the node, and at least once (`Value.countAt`). So a record that holds
nothing for a node counts the node once, and none of those below it.

Only the sizes of the nodes and the paths to them matter then (`Template.estimate_eq_of_sizes`). And
records are only counted, so their order does not matter, at any depth (`Value.Reordered`).

The main statement is `Session.estimate_of_find?`.
-/

namespace Stencil

namespace Value

/-- The records with which the node at the end of a path is reached: the given ones at the root, and
for an inner template all those that are under its key in a record with which the node above it is
reached. -/
def reached (records : List Value) : List String → List Value
  | [] => records
  | key :: path => reached (records.flatMap fun r => r.recordsAt key) path

/-- How often the node at the end of a path is counted. -/
def countAt (records : List Value) (path : List String) : Nat :=
  match path.getLast? with
  | none => max 1 records.length
  | some key => ((reached records path.dropLast).map fun r => max 1 (r.recordsAt key).length).sum

/-- The same value but for the order of the items of lists, at any depth. -/
inductive Reordered : Value → Value → Prop where
  | refl (v : Value) : Reordered v v
  | trans {u v w : Value} : Reordered u v → Reordered v w → Reordered u w
  /-- Items of a list change places. -/
  | list {items others : List Value} : items.Perm others → Reordered (list items) (list others)
  /-- Something changes places inside an item. -/
  | item (before after : List Value) {v w : Value} :
    Reordered v w → Reordered (list (before ++ v :: after)) (list (before ++ w :: after))
  /-- Something changes places inside a field. -/
  | field (before after : List (String × Value)) (key : String) {v w : Value} :
    Reordered v w →
      Reordered (record (before ++ (key, v) :: after)) (record (before ++ (key, w) :: after))

/-! ### Counts -/

theorem reached_flatMap {α : Type} (as : List α) (f : α → List Value) (path : List String) :
    reached (as.flatMap f) path = as.flatMap fun a => reached (f a) path := by
  induction path generalizing f with
  | nil => rfl
  | cons key path ih =>
    rw [reached, List.flatMap_assoc, ih]
    rfl

theorem countAt_nil (records : List Value) : countAt records [] = max 1 records.length := rfl

theorem countAt_concat (records : List Value) (path : List String) (key : String) :
    countAt records (path ++ [key]) =
      ((reached records path).map fun r => max 1 (r.recordsAt key).length).sum := by
  rw [countAt, List.getLast?_concat, List.dropLast_concat]

/-- **A node is counted record by record**: as often as it is for what each record holds for the
first key of the path. -/
theorem countAt_cons (records : List Value) (key : String) (path : List String) :
    countAt records (key :: path) =
      (records.map fun r => countAt (r.recordsAt key) path).sum := by
  -- a node is counted for the last key of its path, and the records go the whole way up to it
  rcases List.eq_nil_or_concat path with rfl | ⟨init, last, rfl⟩
  · rfl
  · rw [List.concat_eq_append, ← List.cons_append, countAt_concat, reached, reached_flatMap,
      List.map_flatMap, List.flatMap, List.sum_flatten, List.map_map]
    simp only [countAt_concat, Function.comp_def]

end Value

namespace Template

variable {t u : Template}

/-! ### Nodes -/

/-- **An estimate is a sum over the nodes**, each with its size as often as it is counted. -/
theorem estimate_eq_sum_places (t : Template) (records : List Value) :
    t.estimate records =
      (t.places.map fun place => place.2.size * Value.countAt records place.1).sum := by
  induction t using Template.induction generalizing records with
  | node t ih =>
    -- what an inner template adds, record by record and node by node
    have hinner : ∀ entry ∈ t.inner,
        (records.map fun r => entry.2.estimate (r.recordsAt entry.1)).sum =
          (entry.2.places.map fun place =>
            place.2.size * Value.countAt records (entry.1 :: place.1)).sum := by
      intro entry hmem
      calc (records.map fun r => entry.2.estimate (r.recordsAt entry.1)).sum
          = (records.map fun r => (entry.2.places.map fun place =>
              place.2.size * Value.countAt (r.recordsAt entry.1) place.1).sum).sum :=
            congrArg List.sum (List.map_congr_left fun r _ => ih entry.1 entry.2 hmem _)
        _ = (entry.2.places.map fun place => (records.map fun r =>
              place.2.size * Value.countAt (r.recordsAt entry.1) place.1).sum).sum :=
            Lists.sum_map_sum_comm records entry.2.places _
        _ = (entry.2.places.map fun place =>
              place.2.size * Value.countAt records (entry.1 :: place.1)).sum := by
            simp only [Value.countAt_cons, List.sum_map_mul_left]
    -- the root comes first, and then the places of each inner template, one key further down
    rw [estimate_eq, places_eq, List.map_cons, List.sum_cons, Value.countAt_nil, Nat.mul_comm,
      List.map_congr_left hinner, List.map_flatMap, List.flatMap, List.sum_flatten, List.map_map]
    simp only [List.map_map, Function.comp_def]

/-- The sizes of the nodes with the paths that lead to them. -/
def sizes (t : Template) : List (List String × Nat) :=
  t.places.map fun place => (place.1, place.2.size)

theorem mem_sizes_iff (distinct : t.All fun n => n.innerKeys.Nodup) {path : List String}
    {count : Nat} : (path, count) ∈ t.sizes ↔ (t.find? path).map size = some count := by
  unfold sizes
  rw [List.mem_map, Option.map_eq_some_iff]
  refine ⟨?_, ?_⟩
  · rintro ⟨⟨p, n⟩, hn, heq⟩
    obtain ⟨rfl, rfl⟩ := Prod.mk.inj heq
    exact ⟨n, (mem_places_iff distinct).mp hn, rfl⟩
  · rintro ⟨n, hn, rfl⟩
    exact ⟨(path, n), (mem_places_iff distinct).mpr hn, rfl⟩

theorem nodup_sizes (distinct : t.All fun n => n.innerKeys.Nodup) : t.sizes.Nodup := by
  -- no path is listed twice
  apply List.Nodup.of_map Prod.fst
  unfold sizes
  rw [List.map_map]
  exact nodup_places distinct

theorem estimate_eq_sum_sizes (t : Template) (records : List Value) :
    t.estimate records =
      (t.sizes.map fun sized => sized.2 * Value.countAt records sized.1).sum := by
  rw [estimate_eq_sum_places, sizes, List.map_map]
  rfl

/-- **Only the sizes and the paths matter** to an estimate. -/
theorem estimate_eq_of_sizes (ht : t.All fun n => n.innerKeys.Nodup)
    (hu : u.All fun n => n.innerKeys.Nodup)
    (h : ∀ path, (t.find? path).map size = (u.find? path).map size) (records : List Value) :
    t.estimate records = u.estimate records := by
  have hperm : t.sizes.Perm u.sizes := by
    rw [List.perm_ext_iff_of_nodup (nodup_sizes ht) (nodup_sizes hu)]
    intro ⟨path, count⟩
    rw [mem_sizes_iff ht, mem_sizes_iff hu, h]
  rw [estimate_eq_sum_sizes, estimate_eq_sum_sizes]
  exact (hperm.map _).sum_nat

/-! ### The order of records -/

theorem estimate_perm {records others : List Value} (h : records.Perm others) (t : Template) :
    t.estimate records = t.estimate others := by
  have hinner : ∀ entry ∈ t.inner,
      (records.map fun r => entry.2.estimate (r.recordsAt entry.1)).sum =
        (others.map fun r => entry.2.estimate (r.recordsAt entry.1)).sum :=
    fun entry _ => (h.map _).sum_nat
  rw [estimate_eq, estimate_eq, h.length_eq, List.map_congr_left hinner]

/-- A record can be exchanged for one that counts as much for every inner template. -/
theorem estimate_exchange {v w : Value}
    (h : ∀ (i : Template) key, i.estimate (v.recordsAt key) = i.estimate (w.recordsAt key))
    (before after : List Value) (t : Template) :
    t.estimate (before ++ v :: after) = t.estimate (before ++ w :: after) := by
  rw [estimate_eq, estimate_eq]
  simp only [List.length_append, List.length_cons, List.map_append, List.map_cons, h]

/-- A list among the records counts for what its items do, since it shows itself under the implicit
key and under no other. -/
theorem estimate_recordsAt_list {items others : List Value}
    (h : ∀ t : Template, t.estimate items = t.estimate others) (t : Template) (key : String) :
    t.estimate ((Value.list items).recordsAt key) =
      t.estimate ((Value.list others).recordsAt key) := by
  unfold Value.recordsAt Value.field?
  by_cases hkey : key = Value.implicitField
  · simp only [if_pos hkey]
    exact h t
  · simp only [if_neg hkey]

/-- A field can be exchanged for one that counts as much. -/
theorem estimate_recordsAt_record {v w : Value}
    (h : ∀ t : Template, t.estimate v.records = t.estimate w.records) (key : String)
    (before after : List (String × Value)) (t : Template) (k : String) :
    t.estimate ((Value.record (before ++ (key, v) :: after)).recordsAt k) =
      t.estimate ((Value.record (before ++ (key, w) :: after)).recordsAt k) := by
  unfold Value.recordsAt
  rw [Value.field?_record, Value.field?_record, List.lookup_append, List.lookup_append,
    Entries.lookup_cons_eq_ite, Entries.lookup_cons_eq_ite]
  cases before.lookup k with
  | some found => rfl
  | none =>
    rw [Option.none_or, Option.none_or]
    by_cases hk : key = k
    · rw [if_pos hk, if_pos hk]
      exact h t
    · rw [if_neg hk, if_neg hk]

/-- **The order of the records does not matter**, in the data or in what a record holds. -/
theorem estimate_reordered {v w : Value} (h : v.Reordered w) :
    (∀ t : Template, t.estimate v.records = t.estimate w.records) ∧
      ∀ (t : Template) key, t.estimate (v.recordsAt key) = t.estimate (w.recordsAt key) := by
  -- what changes places inside a value is seen from outside through the records under its keys, so
  -- these are part of what the induction carries
  induction h with
  | refl v => exact ⟨fun _ => rfl, fun _ _ => rfl⟩
  | trans _ _ ih ih' =>
    exact ⟨fun t => (ih.1 t).trans (ih'.1 t), fun t key => (ih.2 t key).trans (ih'.2 t key)⟩
  | list hperm => exact ⟨estimate_perm hperm, estimate_recordsAt_list (estimate_perm hperm)⟩
  | item before after _ ih =>
    have hitems := estimate_exchange ih.2 before after
    exact ⟨hitems, estimate_recordsAt_list hitems⟩
  | field before after key _ ih =>
    have hfields := estimate_recordsAt_record ih.1 key before after
    exact ⟨estimate_exchange hfields [] [], hfields⟩

end Template

namespace Session

/-- **The estimate, node by node**, of every template that can be made and for all data. It is the
sum over the nodes of the size of each as often as the node is counted. So it is the same for all
templates that can be made and have the same sizes at the same paths, however they were made, and
for data with the same records in another order at any depth. -/
theorem estimate_of_find? {commands : List Command} {address : Address} {t : Template}
    (h : (ofCommands commands).find? address = some t) (data : Value) :
    (t.places.map Prod.fst).Nodup ∧
    (∀ path n, (path, n) ∈ t.places ↔ t.find? path = some n) ∧
    t.estimateData data =
      (t.places.map fun place => place.2.size * Value.countAt data.records place.1).sum ∧
    (∀ commands' address' u, (ofCommands commands').find? address' = some u →
      (∀ path, (t.find? path).map Template.size = (u.find? path).map Template.size) →
        t.estimateData data = u.estimateData data) ∧
    ∀ data', data.Reordered data' → t.estimateData data = t.estimateData data' := by
  have hdistinct : ∀ {commands address} {u : Template},
      (ofCommands commands).find? address = some u → u.All fun n => n.innerKeys.Nodup :=
    fun hu => (all_settled_of_find? hu).imp fun _ hn => hn.declared.distinct
  refine ⟨Template.nodup_places (hdistinct h), fun path n => Template.mem_places_iff (hdistinct h),
    t.estimate_eq_sum_places data.records, fun commands' address' u hu hsizes => ?_,
    fun data' hdata => (Template.estimate_reordered hdata).1 t⟩
  exact Template.estimate_eq_of_sizes (hdistinct h) (hdistinct hu) hsizes data.records

/-- Two pages, of which the first has a list of two items and an empty one, and the second has no
list; and the same with the pages and the lists in the other order. -/
theorem estimate_of_find?_nested :
    ∃ t, (ofCommands nested).find? ⟨"page", []⟩ = some t ∧
      let two := Value.record [("item", .list [.text "a", .text "b"])]
      let none := Value.record [("item", .list [])]
      let data := Value.list [.record [("list", .list [two, none])], .record []]
      let data' := Value.list [.record [], .record [("list", .list [none, two])]]
      (t.places.map fun place => (place.1, Value.countAt data.records place.1)) =
        [([], 2), (["list"], 3), (["list", "item"], 3)] ∧
      data.Reordered data' ∧
      t.estimateData data =
        (t.places.map fun place => place.2.size * Value.countAt data.records place.1).sum ∧
      t.estimateData data = t.estimateData data' := by
  have hcounts : ((ofCommands nested).find? ⟨"page", []⟩).map (fun t =>
      t.places.map fun place => (place.1, Value.countAt
        [.record [("list", .list [.record [("item", .list [.text "a", .text "b"])],
          .record [("item", .list [])]])], .record []] place.1)) =
      some [([], 2), (["list"], 3), (["list", "item"], 3)] := by
    decide +kernel
  obtain ⟨t, ht, hcounts⟩ := Option.map_eq_some_iff.mp hcounts
  refine ⟨t, ht, ?_⟩
  intro two none data data'
  -- the lists change places inside the first page, and then the pages do
  have hreordered : data.Reordered data' :=
    .trans (.item [] [.record []] (.field [] [] "list" (.list (List.Perm.swap none two []))))
      (.list (List.Perm.swap _ _ []))
  obtain ⟨-, -, hestimate, -, horder⟩ := estimate_of_find? ht data
  exact ⟨hcounts, hreordered, hestimate, horder data' hreordered⟩

end Session

end Stencil
