/-!
# Positions in a text

A **position** says how many lines lie above a place and how many characters stand between the
start of its line and the place. Both count from zero; what is written for a reader counts
from one.

`Position.advance` walks over a run of characters. It is a fold, so that the position after a
text in two parts is reached through the position between them (`Position.advance_append`).
-/

namespace Stencil.Text

/-- A place in a text: lines above it, and characters before it on its own line. -/
structure Position where
  line : Nat := 0
  column : Nat := 0
deriving DecidableEq, Repr

namespace Position

/-- The position behind one character. A newline opens the next line; any other character, of
whatever width, is one column. -/
def next (p : Position) (c : Char) : Position :=
  if c = '\n' then ⟨p.line + 1, 0⟩ else ⟨p.line, p.column + 1⟩

/-- The position behind a run of characters. -/
def advance (p : Position) (cs : List Char) : Position :=
  cs.foldl next p

@[simp] theorem advance_nil (p : Position) : p.advance [] = p := rfl

@[simp] theorem advance_cons (p : Position) (c : Char) (cs : List Char) :
    p.advance (c :: cs) = (p.next c).advance cs := rfl

@[simp] theorem advance_append (p : Position) (cs ds : List Char) :
    p.advance (cs ++ ds) = (p.advance cs).advance ds :=
  List.foldl_append

example : (advance {} "ab\ncde".toList) = ⟨1, 3⟩ := by decide

end Position

end Stencil.Text
