import Stencil.Entries

/-!
# Values

A template is rendered with a **value**: nothing, a text, a record of named values, or a list.
There are two ways of looking at a value.

* As a sequence of **records** (`Value.records`), the units that a template is repeated for. A
  list gives its items, nothing gives no unit, and any other value is a single unit.
* As one record (`Value.field?`). A unit that is not a record shows itself under the one key
  `value`.

A key that is absent differs from a key with the value `null`. Two values are equal (`==`)
when they differ at most in the order of the fields of their records.
-/

namespace Stencil

/-- What a template is rendered with. -/
inductive Value where
  | null
  | text (s : String)
  | record (fields : List (String × Value))
  | list (items : List Value)
deriving Inhabited

namespace Value

/-- The units that a template is repeated for. -/
def records : Value → List Value
  | list items => items
  | null => []
  | v => [v]

/-- The text of a scalar. -/
def text? : Value → Option String
  | text s => some s
  | _ => none

/-- Whether there is nothing. -/
def isNull : Value → Bool
  | null => true
  | _ => false

/-- The key under which a unit that is not a record shows itself. -/
def implicitField : String := "value"

/-- The value under a key of a unit. -/
def field? (v : Value) (key : String) : Option Value :=
  match v with
  | record fields => fields.lookup key
  | v => if key = implicitField then some v else none

/-- The units under a key of a unit. An absent key has none. -/
def recordsAt (v : Value) (key : String) : List Value :=
  match v.field? key with
  | some w => w.records
  | none => []

@[simp] theorem records_list (items : List Value) : (list items).records = items := rfl

@[simp] theorem records_null : null.records = [] := rfl

@[simp] theorem field?_record (fields : List (String × Value)) (key : String) :
    (record fields).field? key = fields.lookup key := rfl

/-- A record with these fields; a repeated key keeps its first place and takes its last value. -/
def ofPairs (pairs : List (String × Value)) : Value :=
  record (Entries.ofPairs pairs)

mutual

/-- Whether two values are equal up to the order of fields. -/
def same : Value → Value → Bool
  | null, null => true
  | text s, text t => s == t
  | record fields, record others => fields.length == others.length && sameFields fields others
  | list items, list others => sameItems items others
  | _, _ => false

/-- Whether every field has an equal one with its key among the others. -/
def sameFields : List (String × Value) → List (String × Value) → Bool
  | [], _ => true
  | (key, v) :: rest, others =>
    (match others.lookup key with
      | some w => v.same w
      | none => false) && sameFields rest others

/-- Whether two lists have equal items in the same order. -/
def sameItems : List Value → List Value → Bool
  | [], [] => true
  | v :: rest, w :: others => v.same w && sameItems rest others
  | _, _ => false

end

instance : BEq Value := ⟨same⟩

example : record [("a", null), ("b", text "x")] == record [("b", text "x"), ("a", null)] := by
  decide

end Value

end Stencil
