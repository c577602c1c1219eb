import Stencil.Value.Basic

/-!
# Batches

A **batch** gathers records of plain texts one after another, and can put a list of such records
under a key of every record gathered so far. It is a short way to write data for a template with
inner templates.

A run of steps is a fold (`Batch.run`). A step reaches the records that exist when it is taken and
none that come later; the first list put into an empty batch makes an empty record to hold it.
-/

namespace Stencil

/-- The fields of a record of texts. -/
def Value.textFields (pairs : List (String × String)) : List (String × Value) :=
  Entries.ofPairs (pairs.map fun pair => (pair.1, .text pair.2))

/-- Records in the making, each as its fields. -/
structure Batch where
  records : List (List (String × Value)) := []

namespace Batch

/-- Something done to a batch. -/
inductive Step where
  /-- Append a record. -/
  | add (pairs : List (String × String))
  /-- Append several records. -/
  | addAll (records : List (List (String × String)))
  /-- Put a list of records under a key of every record. -/
  | addInner (key : String) (records : List (List (String × String)))

/-- Appends a record. -/
def add (b : Batch) (pairs : List (String × String)) : Batch :=
  ⟨b.records ++ [Value.textFields pairs]⟩

/-- Appends several records. -/
def addAll (b : Batch) (records : List (List (String × String))) : Batch :=
  ⟨b.records ++ records.map Value.textFields⟩

/-- Puts a list of records under a key of every record, after making one if there is none. -/
def addInner (b : Batch) (key : String) (records : List (List (String × String))) : Batch :=
  let existing := if b.records.isEmpty then [[]] else b.records
  let inner := Value.list (records.map fun pairs => .record (Value.textFields pairs))
  ⟨existing.map (Entries.insert key inner)⟩

/-- The number of records. -/
def size (b : Batch) : Nat :=
  b.records.length

/-- Whether there is no record. -/
def isEmpty (b : Batch) : Bool :=
  b.records.isEmpty

/-- The batch as a list of records. -/
def toValue (b : Batch) : Value :=
  .list (b.records.map .record)

/-- Takes one step. -/
def step (b : Batch) : Step → Batch
  | .add pairs => b.add pairs
  | .addAll records => b.addAll records
  | .addInner key records => b.addInner key records

/-- Takes steps from an empty batch. -/
def run (steps : List Step) : Batch :=
  steps.foldl step {}

end Batch

end Stencil
