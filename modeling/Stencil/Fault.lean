import Stencil.Text.Excerpt
import Stencil.Text.Position

/-!
# Faults

A **fault** is a cause: what is wrong with a template text, with a registration, with the data
or with a JSON text. What a reader is told about it is its **report** (`Fault.report`), which
holds the wording in full; `Report.message` is the report as one line.

A fault found in the data says where the record is by a path of steps from the top.
-/

namespace Stencil

open Text (Position excerpt)

/-- Why a text or a description of templates gives no template. -/
inductive ParseFault where
  /-- A blueprint without a text. -/
  | noSource
  /-- A text without characters. -/
  | emptyText
  /-- A placeholder of `text`, opened at the given position, is never closed. -/
  | unterminated (text : String) (opened : Position)
deriving DecidableEq, Repr

/-- Why a template cannot be registered under a key. -/
inductive BindingFault where
  /-- The key is made of blanks. -/
  | blankKey
  /-- The template to register is the receiving template. -/
  | itself
  /-- The key is bound already. -/
  | takenKey (key : String)
  /-- The template is not found under the key after its registration. -/
  | vanished (key : String)
deriving DecidableEq, Repr

/-- One step from a value down to a record in it. -/
inductive PathStep where
  /-- To the record with this index. -/
  | item (index : Nat)
  /-- To the records under this key. -/
  | field (key : String)
deriving DecidableEq, Repr

/-- The way from the top of the data down to a record. -/
abbrev DataPath := List PathStep

/-- A record lacks keys that its template declares. -/
structure MissingKeys where
  path : DataPath
  keys : List String
deriving DecidableEq, Repr

/-- The same record, seen from one step higher up. -/
def MissingKeys.under (step : PathStep) (m : MissingKeys) : MissingKeys :=
  { m with path := step :: m.path }

/-- What can go wrong with templates and their data. -/
inductive Fault where
  | parse (cause : ParseFault)
  | binding (cause : BindingFault)
  | missingKeys (cause : MissingKeys)
  /-- A text is not JSON, or a value has no JSON form. -/
  | json
deriving DecidableEq, Repr

/-! ## Wording -/

/-- The number of characters of a template text that a message quotes. -/
def excerptWidth : Nat := 10

/-- What is said of a text that gives no template. Lines and columns are counted from one. -/
def ParseFault.detail : ParseFault → String
  | noSource => "No template source specified"
  | emptyText => "The input to building a template must be a non-empty string"
  | unterminated text opened =>
    "unterminated placeholder in template starting with \"" ++ excerpt excerptWidth text
      ++ "\" at line " ++ toString (opened.line + 1)
      ++ " and column " ++ toString (opened.column + 1)

/-- What is said of a registration that is refused. -/
def BindingFault.detail : BindingFault → String
  | blankKey => "The key must be a valid non-blank string"
  | itself => "Disallowed to register a template to itself as an inner template"
  | takenKey key => "key is already registered for use in another template: " ++ key
  | vanished key => "inner template vanished during registration: " ++ key

/-- One step of a path: an index in brackets, or a key behind a dot. -/
def PathStep.text : PathStep → String
  | item index => "[" ++ toString index ++ "]"
  | field key => "." ++ key

/-- A path from the top, such as `ROOT[1].F[0]`. -/
def DataPath.text (path : DataPath) : String :=
  "ROOT" ++ String.join (path.map PathStep.text)

/-- What a reader is told: the kind of fault and the words for it. -/
inductive Report where
  | parse (detail : String)
  | binding (detail : String)
  | missingKeys (path : String) (keys : List String)
  | json
deriving DecidableEq, Repr

/-- A report as one line. The words of a JSON fault are its kind alone. -/
def Report.message : Report → String
  | parse detail => "Parse error: " ++ detail
  | binding detail => "Binding error: " ++ detail
  | missingKeys path keys =>
    "Missing keys in data map " ++ path ++ ": [" ++ String.intercalate ", " keys ++ "]"
  | json => "JSON error: "

/-- The report on a fault. -/
def Fault.report : Fault → Report
  | parse cause => .parse cause.detail
  | binding cause => .binding cause.detail
  | missingKeys cause => .missingKeys (DataPath.text cause.path) cause.keys
  | json => .json

example : (Fault.missingKeys ⟨[.item 1, .field "F", .item 0], ["a", "c"]⟩).report.message
    = "Missing keys in data map ROOT[1].F[0]: [a, c]" := by decide +kernel

end Stencil
