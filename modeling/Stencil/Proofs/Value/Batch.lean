import Stencil.Proofs.Entries
import Stencil.Value.Batch
import Stencil.Value.Json

/-!
# What a run of steps gathers

Each record of a batch is made by one step of the run, and is then reached by every list that a
later step puts under a key. So its fields are what comes of a list of pairs, put in one after
another: the pairs that it was made with, as texts, and then the lists with their keys, in the order
of the steps (`Batch.written`). A list that makes a record itself reaches it as well.

This is said of one step first (`Batch.records_step`) and then of a run (`Batch.records_run`). The
pairs of a run in two parts are those of the first part, with the lists of the second behind them,
and then those of the second part by itself (`Batch.written_append`).

The main statement is `Batch.toValue_run`.
-/

namespace Stencil

/-- Pairs of texts as pairs of a key and a value. -/
def Value.textPairs (pairs : List (String × String)) : List (String × Value) :=
  pairs.map fun pair => (pair.1, .text pair.2)

namespace Batch

/-- What a step puts into every record that there is: its list under its key. -/
def Step.attached : Step → List (String × Value)
  | add _ | addAll _ => []
  | addInner key records =>
    [(key, .list (records.map fun pairs => .record (Value.textFields pairs)))]

/-- The records that a step makes, each as the pairs that it is made with. A list makes one without
pairs if there is no record, that is if the batch is `vacant`. -/
def Step.made (vacant : Bool) : Step → List (List (String × Value))
  | add pairs => [Value.textPairs pairs]
  | addAll records => records.map Value.textPairs
  | addInner _ _ => if vacant then [[]] else []

/-- The records that steps make, each as all the pairs that are put into it, one after another. A
step reaches the records that it makes itself. -/
def written (vacant : Bool) : List Step → List (List (String × Value))
  | [] => []
  | s :: rest =>
    (s.made vacant).map (· ++ (s :: rest).flatMap Step.attached) ++
      written (vacant && (s.made vacant).isEmpty) rest

variable {b : Batch}

theorem written_singleton (vacant : Bool) (s : Step) :
    written vacant [s] = (s.made vacant).map (· ++ s.attached) := by
  rw [written, written, List.append_nil, List.flatMap_singleton]

/-- There is no record behind `s :: rest` if `s` makes none and `rest` makes none behind it. -/
theorem vacant_written_cons (vacant : Bool) (s : Step) (rest : List Step) :
    (vacant && (written vacant (s :: rest)).isEmpty) =
      ((vacant && (s.made vacant).isEmpty) &&
        (written (vacant && (s.made vacant).isEmpty) rest).isEmpty) := by
  rw [written, Bool.and_assoc]
  cases s.made vacant with
  | nil => rfl
  | cons own others => rfl

/-- **Pairs in two parts**: the lists of the second part reach the records of the first. -/
theorem written_append (vacant : Bool) (first second : List Step) :
    written vacant (first ++ second) =
      (written vacant first).map (· ++ second.flatMap Step.attached) ++
        written (vacant && (written vacant first).isEmpty) second := by
  induction first generalizing vacant with
  | nil =>
    rw [List.nil_append, written, List.map_nil, List.nil_append, List.isEmpty_nil, Bool.and_true]
  | cons s rest ih =>
    rw [vacant_written_cons, List.cons_append, written, ih, written, List.map_append,
      List.append_assoc]
    simp only [List.map_map, Function.comp_def, List.flatMap_cons, List.flatMap_append,
      List.append_assoc]

/-! ### Steps and runs -/

/-- **What one step does** to the records: its list is put into all of them, and behind them come
those that it makes. -/
theorem records_step {pairs : List (List (String × Value))}
    (h : b.records = pairs.map Entries.ofPairs) (s : Step) :
    (b.step s).records =
      (pairs.map (· ++ s.attached) ++ written pairs.isEmpty [s]).map Entries.ofPairs := by
  -- a step that is given records puts nothing into those that there are
  have hgiven : ∀ records : List (List (String × String)),
      b.records ++ records.map Value.textFields =
        (pairs.map (· ++ []) ++ (records.map Value.textPairs).map (· ++ [])).map
          Entries.ofPairs := by
    intro records
    simp only [h, List.append_nil, List.map_id', List.map_append, List.map_map]
    rfl
  rw [written_singleton]
  cases s with
  | add own => exact hgiven [own]
  | addAll records => exact hgiven records
  | addInner key records =>
    show (if b.records.isEmpty then [[]] else b.records).map (Entries.insert key _) = _
    cases pairs with
    | nil =>
      rw [h]
      rfl
    | cons first rest =>
      -- there are records, so none is made
      have hinsert : ∀ (own : List (String × Value)) (v : Value),
          Entries.insert key v (Entries.ofPairs own) = Entries.ofPairs (own ++ [(key, v)]) :=
        fun own v => (Entries.ofPairs_concat own (key, v)).symm
      simp only [h, Step.attached, Step.made, List.map_cons, List.isEmpty_cons, List.map_map,
        Function.comp_def, hinsert, Bool.false_eq_true, if_false, List.map_nil, List.append_nil]

theorem run_concat (steps : List Step) (s : Step) : run (steps ++ [s]) = (run steps).step s := by
  rw [run, List.foldl_append, List.foldl_cons, List.foldl_nil, ← run]

/-- **What a run does**: the records come of what its steps have written. -/
theorem records_run (steps : List Step) :
    (run steps).records = (written true steps).map Entries.ofPairs := by
  induction steps using List.reverseRecOn with
  | nil => rfl
  | append_singleton rest s ih =>
    -- the last step finds what the others have written
    rw [run_concat, records_step ih, written_append, List.flatMap_singleton, Bool.true_and]

/-! ### What the steps do to each other -/

/-- There is a record behind every list. -/
theorem isEmpty_written_concat_addInner (steps : List Step) (key : String)
    (records : List (List (String × String))) :
    (written true (steps ++ [.addInner key records])).isEmpty = false := by
  rw [written_append, written_singleton]
  cases written true steps with
  | nil => rfl
  | cons first rest => rfl

/-- **A list does not reach records that are made later**: they come of the steps behind it. -/
theorem drop_records_run (steps after : List Step) (key : String)
    (records : List (List (String × String))) :
    (run (steps ++ .addInner key records :: after)).records.drop
        (run (steps ++ [.addInner key records])).size =
      (written false after).map Entries.ofPairs := by
  have hsplit : steps ++ .addInner key records :: after =
      (steps ++ [.addInner key records]) ++ after :=
    List.append_cons steps (.addInner key records) after
  -- what is put into a record later does not change how many there are
  have hsize : (run (steps ++ [.addInner key records])).size =
      (((written true (steps ++ [.addInner key records])).map
        (· ++ after.flatMap Step.attached)).map Entries.ofPairs).length := by
    rw [size, records_run, List.length_map, List.length_map, List.length_map]
  rw [hsplit, records_run, written_append, isEmpty_written_concat_addInner, Bool.and_false,
    List.map_append, hsize, List.drop_left]

/-- **A list changes no field but that under its key.** -/
theorem filter_records_addInner (b : Batch) (key : String)
    (records : List (List (String × String))) :
    (b.addInner key records).records.map (List.filter fun field => field.1 ≠ key) =
      (if b.isEmpty then [[]] else b.records).map (List.filter fun field => field.1 ≠ key) := by
  unfold addInner isEmpty
  rw [List.map_map]
  exact List.map_congr_left fun fields _ => Entries.filter_insert_of_ne key _ fields

/-- **Several records are added one after another.** -/
theorem addAll_eq_foldl (b : Batch) (records : List (List (String × String))) :
    b.addAll records = (records.map Step.add).foldl step b := by
  induction records generalizing b with
  | nil => rw [addAll, List.map_nil, List.append_nil, List.map_nil, List.foldl_nil]
  | cons own rest ih =>
    rw [List.map_cons, List.foldl_cons, ← ih]
    unfold addAll step add
    rw [List.map_cons, List.append_assoc, List.singleton_append]

/-- **What a run gathers**, as a value. There is one record for each that was given, in order, and
an empty one made by the first list if none was there. Its fields are what comes of its own pairs
and then of the lists put under their keys while it was there; each key stands where it first stood
and has its last value. So a list has no effect on the records that are made later and none on the other
fields, to add several records is to add them one after another, and the size counts the records. -/
theorem toValue_run (steps : List Step) :
    (run steps).toValue =
      .list ((written true steps).map fun pairs => .record (Entries.ofPairs pairs)) ∧
    (∀ pairs : List (String × Value),
      (Entries.ofPairs pairs).map Prod.fst = (pairs.map Prod.fst).eraseDups ∧
      ∀ key, (Entries.ofPairs pairs).lookup key = pairs.reverse.lookup key) ∧
    (∀ key records,
      (∀ after, (run (steps ++ .addInner key records :: after)).records.drop
        (run (steps ++ [.addInner key records])).size = (written false after).map Entries.ofPairs) ∧
      (run (steps ++ [.addInner key records])).records.map
          (List.filter fun field => field.1 ≠ key) =
        (if (run steps).isEmpty then [[]] else (run steps).records).map
          (List.filter fun field => field.1 ≠ key)) ∧
    (∀ records after, run (steps ++ .addAll records :: after) =
      run (steps ++ records.map Step.add ++ after)) ∧
    (run steps).size = (run steps).toValue.records.length := by
  refine ⟨?gathered, fun pairs => ⟨Entries.map_fst_ofPairs pairs, Entries.lookup_ofPairs pairs⟩,
    fun key records => ⟨fun after => drop_records_run steps after key records, ?others⟩,
    fun records after => ?several, ?size⟩
  case gathered =>
    rw [toValue, records_run, List.map_map]
    rfl
  case others =>
    rw [run_concat]
    exact filter_records_addInner (run steps) key records
  case several =>
    unfold run
    rw [List.foldl_append, List.foldl_cons, List.foldl_append, List.foldl_append]
    exact congrArg (after.foldl step) (addAll_eq_foldl _ records)
  case size =>
    rw [toValue, Value.records_list, List.length_map, size]

/-- The first list makes a record, and the second one reaches the record added before it; there
`F` keeps its place and takes the list for its value. -/
example : (run [.addAll [], .addInner "F" [[("a", "b")]], .add [("F", "x"), ("c", "d")],
    .addInner "F" []]).toValue.compact =
      "[\x7b\"F\":[]\x7d,\x7b\"F\":[],\"c\":\"d\"\x7d]" := by
  decide +kernel

end Batch

end Stencil
