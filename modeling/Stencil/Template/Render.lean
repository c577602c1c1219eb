import Stencil.Template.Check

/-!
# Rendering

A template is rendered for each record of a sequence. The renderings stand on lines of their own,
and every line after the first starts with as many spaces as the column at which the sequence is
rendered; the lines inside one rendering are moved by the variant for that column.

Literal text is copied. A dynamic placeholder gives the text under its key, and nothing when
there is none. An inner placeholder gives the rendering of the template bound to its key, at the
column of the placeholder, for the records under the key.

Data without any record is rendered once, with nothing filled in.

The renderings say which text there is, and not how it is stored. Room for it may be reserved
beforehand from the estimate of its size; this is not modelled. There is no room for an estimate of
`2 ^ 63` bytes or more, which an infinite size modifier gives, and a program that tries to reserve
it ends there; here such a template is rendered like any other.
-/

namespace Stencil

/-- Renderings at a column, one below the other. -/
def stackAt (column : Nat) (renderings : List String) : String :=
  String.intercalate (String.ofList ('\n' :: List.replicate column ' ')) renderings

/-- The text that a dynamic placeholder gives for a record. -/
def Value.scalarAt (record : Value) (key : String) : String :=
  ((record.field? key).bind Value.text?).getD ""

/-- The text that a section gives for a record, if `bound` renders the template bound to a key at a
column for a sequence of records. -/
def Section.fill (bound : String → Nat → List Value → String) (record : Value) : Section → String
  | static text => text
  | dynamic key _ => record.scalarAt key
  | inner key column => bound key column (record.recordsAt key)

namespace Template

/-- The variant for a column, or the one for column 0 if there is none. -/
def variantFor (variants : List (Nat × List Section)) (column : Nat) : List Section :=
  ((variants.lookup column).or (variants.lookup 0)).getD []

mutual

/-- The rendering for one record at a column. -/
def renderRecord (t : Template) (column : Nat) (record : Value) : String :=
  match t with
  | { variants, inner, .. } =>
    String.join ((variantFor variants column).map (Section.fill
      (fun key column records => renderBound inner key column records) record))

/-- The rendering of the inner template bound to a key, for records at a column. -/
def renderBound : List (String × Template) → String → Nat → List Value → String
  | [], _, _, _ => ""
  | (k, t) :: rest, key, column, records =>
    if k = key then stackAt column (records.map fun record => t.renderRecord column record)
    else renderBound rest key column records

end

/-- The rendering for a sequence of records at a column. -/
def renderRecords (t : Template) (column : Nat) (records : List Value) : String :=
  stackAt column (records.map (t.renderRecord column))

/-- The rendering of data that is not checked. That room for it may be reserved beforehand, and that
a huge estimate leaves no room, is not modelled. -/
def renderUnchecked (t : Template) (data : Value) : String :=
  match data.records with
  | [] => t.renderRecord 0 (.record [])
  | records => t.renderRecords 0 records

/-- The rendering of data, which is checked first if `checks` says so. -/
def renderWithChecks (t : Template) (checks : Bool) (data : Value) : Except Fault String := do
  if checks then (t.check data).mapError .missingKeys
  return t.renderUnchecked data

/-- The rendering of data, which is checked first if the template is configured to. -/
def render (t : Template) (data : Value) : Except Fault String :=
  t.renderWithChecks t.config.runChecks data

end Template

end Stencil
