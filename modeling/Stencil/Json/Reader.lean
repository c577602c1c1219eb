import Stencil.Json.Token

/-!
# Reading JSON

`Json.read?` gives the value of a JSON text, or nothing if the text is not exactly one JSON value.
Arrays and objects may be nested 127 deep.

The tokens are taken in one after another. What encloses the place reached is a stack of
**frames**, one for each array or object that is still open; what may follow is a `State`.
Fields are kept in ascending order of keys, the last value of a repeated key.
-/

namespace Stencil.Json

/-- An array or object that waits for the value being read inside it. -/
inductive Frame where
  | array (items : Array Json)
  | object (fields : List (String × Json)) (key : String)

/-- What has been read and what may follow. `outer` is the stack of enclosing frames. -/
inductive State where
  /-- A value has to follow. -/
  | value (outer : List Frame)
  /-- An array was opened. -/
  | arrayStart (outer : List Frame)
  /-- An item of an array is complete. -/
  | afterItem (items : Array Json) (outer : List Frame)
  /-- An object was opened. -/
  | objectStart (outer : List Frame)
  /-- A key has to follow. -/
  | key (fields : List (String × Json)) (outer : List Frame)
  /-- A key was read. -/
  | afterKey (fields : List (String × Json)) (key : String) (outer : List Frame)
  /-- A field of an object is complete. -/
  | afterField (fields : List (String × Json)) (outer : List Frame)
  /-- The whole value is complete. -/
  | done (value : Json)

namespace State

/-- A value is complete: it goes into the innermost frame. -/
def complete (json : Json) : List Frame → State
  | [] => done json
  | .array items :: outer => afterItem (items.push json) outer
  | .object fields name :: outer => afterField (Entries.insertSorted name json fields) outer

/-- The first token of a value, inside at most `depth - 1` frames if it opens one more. -/
def begin? (depth : Nat) (outer : List Frame) : Token → Option State
  | .scalar json => some (complete json outer)
  | .string s => some (complete (.string s) outer)
  | .openArray => if outer.length < depth then some (arrayStart outer) else none
  | .openObject => if outer.length < depth then some (objectStart outer) else none
  | _ => none

/-- Takes in a token. -/
def step (depth : Nat) : State → Token → Option State
  | value outer, token => begin? depth outer token
  | arrayStart outer, .closeArray => some (complete (.array []) outer)
  | arrayStart outer, token => begin? depth (.array #[] :: outer) token
  | afterItem items outer, .comma => some (value (.array items :: outer))
  | afterItem items outer, .closeArray => some (complete (.array items.toList) outer)
  | objectStart outer, .closeObject => some (complete (.object []) outer)
  | objectStart outer, .string name => some (afterKey [] name outer)
  | key fields outer, .string name => some (afterKey fields name outer)
  | afterKey fields name outer, .colon => some (value (.object fields name :: outer))
  | afterField fields outer, .comma => some (key fields outer)
  | afterField fields outer, .closeObject => some (complete (.object fields) outer)
  | _, _ => none

/-- The value of a finished reading. -/
def finish? : State → Option Json
  | done json => some json
  | _ => none

end State

/-- Reads a JSON text with arrays and objects nested at most `depth` deep. -/
def readWithin? (depth : Nat) (text : String) : Option Json :=
  (Token.ofChars? text.toList).bind fun tokens =>
    (tokens.foldlM (State.step depth) (.value [])).bind State.finish?

/-- How deep arrays and objects may be nested. -/
def nestingLimit : Nat := 127

/-- Reads a JSON text. -/
def read? (text : String) : Option Json :=
  readWithin? nestingLimit text

end Stencil.Json
