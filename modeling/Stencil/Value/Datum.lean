import Stencil.Value.Json

/-!
# Serialisable data

A **datum** is what a program hands over to be serialised: scalars of several kinds, optional and
wrapped data, sequences, maps with data as keys, and variants with a payload.

`Datum.toJson?` is its JSON form, if it has one. Whole numbers have to be in the range of JSON
texts and numbers that are not finite become null. A key of a map is written as a text
(`Datum.key?`), which only scalars can be; as keys whole numbers have no limits, and numbers
of 32 bits are written with their own shortest digits and layout instead of those of 64 bits.

A value is a datum too (`Value.toDatum`). To serialise it and take it back sorts the fields of
its records (`Value.reserialize?`).
-/

namespace Stencil

/-- Data to be serialised. -/
inductive Datum where
  /-- Nothing, or a datum without content. -/
  | unit
  | bool (b : Bool)
  | whole (n : Int)
  | double (x : Float)
  | single (x : Float32)
  /-- A text, a character, or the name of a variant without payload. -/
  | text (s : String)
  /-- An optional datum that is there. -/
  | present (d : Datum)
  /-- A datum under a type of its own. -/
  | wrapped (d : Datum)
  | seq (items : List Datum)
  | map (entries : List (Datum × Datum))
  /-- A variant with a payload. -/
  | variant (name : String) (payload : Datum)

namespace Datum

/-- A map with texts as keys. -/
def ofFields (fields : List (String × Datum)) : Datum :=
  map (fields.map fun field => (text field.1, field.2))

/-- A finite number in a given layout. -/
def finiteText? (l : Layout) : Binary → Option String
  | .finite x => some (l.write x)
  | .infinite _ | .notANumber => none

/-- A datum as the key of an object. -/
def key? : Datum → Option String
  | text s => some s
  | bool true => some "true"
  | bool false => some "false"
  | whole n => some (toString n)
  | double x => finiteText? doubleLayout (.ofFloat x)
  | single x => finiteText? singleLayout (.ofFloat32 x)
  | wrapped d => d.key?
  | unit | present _ | seq _ | map _ | variant _ _ => none

/-- The JSON form of a number of 64 bits. -/
def doubleToJson (x : Float) : Json :=
  match Binary.ofFloat x with
  | .finite x => .number (.real x)
  | .infinite _ | .notANumber => .null

mutual

/-- The JSON form of a datum. -/
def toJson? : Datum → Option Json
  | unit => some .null
  | bool b => some (.bool b)
  | whole n => if Number.wholeInRange n then some (.number (.whole n)) else none
  | double x => some (doubleToJson x)
  | single x => some (doubleToJson x.toFloat)
  | text s => some (.string s)
  | present d | wrapped d => d.toJson?
  | seq items => (itemsToJson? items).map .array
  | map entries => (entriesToJson? entries).map Json.ofFields
  | variant name payload => payload.toJson?.map fun json => Json.ofFields [(name, json)]

/-- The JSON forms of the items of a sequence. -/
def itemsToJson? : List Datum → Option (List Json)
  | [] => some []
  | d :: rest =>
    d.toJson?.bind fun json => (itemsToJson? rest).map fun others => json :: others

/-- The fields of an object from the entries of a map, in the order of the entries. -/
def entriesToJson? : List (Datum × Datum) → Option (List (String × Json))
  | [] => some []
  | (key, d) :: rest =>
    key.key?.bind fun name => d.toJson?.bind fun json =>
      (entriesToJson? rest).map fun others => (name, json) :: others

end

end Datum

namespace Value

/-- The value of a datum. -/
def ofDatum? (d : Datum) : Option Value :=
  d.toJson?.map ofJson

mutual

/-- A value as a datum. -/
def toDatum : Value → Datum
  | null => .unit
  | text s => .text s
  | record fields => .map (toDatumFields fields)
  | list items => .seq (toDatumItems items)

/-- Values as data. -/
def toDatumItems : List Value → List Datum
  | [] => []
  | v :: rest => v.toDatum :: toDatumItems rest

/-- The entries of a map from the fields of a record. -/
def toDatumFields : List (String × Value) → List (Datum × Datum)
  | [] => []
  | (key, v) :: rest => (.text key, v.toDatum) :: toDatumFields rest

end

/-- A value after it was serialised and taken back. -/
def reserialize? (v : Value) : Option Value :=
  ofDatum? v.toDatum

end Value

end Stencil
