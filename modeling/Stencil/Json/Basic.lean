import Stencil.Decimal.Layout
import Stencil.Entries

/-!
# JSON values

`Json` is the tree of a JSON text. Numbers are whole numbers or finite binary numbers
(`Number`), so that every number has a text. An object is a list of fields; those that a reader
makes have unique keys in ascending order (`Json.ofFields`).
-/

namespace Stencil

/-- A number of a JSON text. -/
inductive Number where
  | whole (n : Int)
  | real (x : FiniteBinary)
deriving DecidableEq, Repr

namespace Number

/-- The least whole number of a JSON text. -/
def leastWhole : Int := -Int.pow 2 63

/-- The greatest whole number of a JSON text. -/
def greatestWhole : Int := Int.pow 2 64 - 1

/-- Whether a whole number can stand in a JSON text as a whole number. -/
def wholeInRange (n : Int) : Bool :=
  leastWhole ≤ n && n ≤ greatestWhole

/-- A number as it is written. -/
def text : Number → String
  | whole n => toString n
  | real x => doubleLayout.write x

/-- The number of 64 bits that is nearest. -/
def toFloat : Number → Float
  | whole n => Float.ofInt n
  | real x => x.toFloat

end Number

/-- A JSON value. -/
inductive Json where
  | null
  | bool (b : Bool)
  | number (n : Number)
  | string (s : String)
  | array (items : List Json)
  | object (fields : List (String × Json))
deriving Inhabited

namespace Json

/-- The object with these fields: ascending keys, of each key the last value. -/
def ofFields (fields : List (String × Json)) : Json :=
  object (Entries.sortedOfPairs fields)

end Json

end Stencil
