import Stencil.Json.Printer
import Stencil.Json.Reader
import Stencil.Value.Basic

/-!
# Values and JSON

Every JSON value is a value: a boolean or a number becomes the text that it is written with. Every
value is a JSON value in turn, its fields in their own order (`Value.toJson`); that is the form
in which a value is written on one line (`Value.compact`).
-/

namespace Stencil.Value

mutual

/-- The value of a JSON value. -/
def ofJson : Json → Value
  | .null => null
  | .bool true => text "true"
  | .bool false => text "false"
  | .number n => text n.text
  | .string s => text s
  | .array items => list (ofJsonItems items)
  | .object fields => record (ofJsonFields fields)

/-- The values of JSON values. -/
def ofJsonItems : List Json → List Value
  | [] => []
  | item :: rest => ofJson item :: ofJsonItems rest

/-- The fields of a record from those of a JSON object. -/
def ofJsonFields : List (String × Json) → List (String × Value)
  | [] => []
  | (key, item) :: rest => (key, ofJson item) :: ofJsonFields rest

end

mutual

/-- The JSON form of a value. -/
def toJson : Value → Json
  | null => .null
  | text s => .string s
  | record fields => .object (toJsonFields fields)
  | list items => .array (toJsonItems items)

/-- The JSON forms of values. -/
def toJsonItems : List Value → List Json
  | [] => []
  | v :: rest => v.toJson :: toJsonItems rest

/-- The fields of a JSON object from those of a record. -/
def toJsonFields : List (String × Value) → List (String × Json)
  | [] => []
  | (key, v) :: rest => (key, v.toJson) :: toJsonFields rest

end

/-- A value as JSON on one line. -/
def compact (v : Value) : String :=
  v.toJson.compact

/-- The value of a JSON text. -/
def read? (text : String) : Option Value :=
  (Json.read? text).map ofJson

end Stencil.Value
