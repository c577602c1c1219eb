import Stencil.Fault
import Stencil.Section.Basic
import Stencil.Section.Lexeme
import Stencil.Text.Blank

/-!
# Scanning a text into sections

`Section.parse` reads a template text once, from left to right, lexeme by lexeme. The state of
the reading is a `Scan`: the position reached, where the placeholder being read was opened (if
one is), the characters not yet given to a section, and the sections so far.

* A closing pair ends the placeholder that is open; without one it is text.
* An opening pair starts a placeholder. If one is open already, that earlier pair and what
  followed it turn out to be text.
* A text that ends inside a placeholder is refused, at the position where that one was opened.

Sections of literal text are never empty, and two of them may stand side by side. A line may end
inside a placeholder; its key keeps the newline unless it stands at an end of the key.
-/

namespace Stencil

open Text (Position trim)

/-- A reading of a template text in progress. -/
structure Scan where
  /-- How far the reading has come. -/
  position : Position := {}
  /-- Where the placeholder being read was opened. -/
  opened : Option Position := none
  /-- What was read since the last section ended: literal text, or the key being read. -/
  pending : String := ""
  /-- The sections so far. -/
  sections : Array Section := #[]

namespace Scan

/-- Ends a section of literal text, if any text is pending. -/
def flush (s : Scan) : Scan :=
  if s.pending.isEmpty then s
  else { s with sections := s.sections.push (.static s.pending), pending := "" }

/-- Gives up the placeholder being read, if any: its opening pair is text after all. -/
def abandon (s : Scan) : Scan :=
  match s.opened with
  | none => s
  | some _ => { s with pending := String.ofList Lexeme.opening.chars ++ s.pending, opened := none }

/-- Takes in one lexeme at the position reached, which stays behind. -/
def take (s : Scan) : Lexeme → Scan
  | .opening => { s.abandon.flush with opened := some s.position }
  | .closing =>
    match s.opened with
    | none => { s with pending := s.pending ++ String.ofList Lexeme.closing.chars }
    | some start =>
      { s with
        sections := s.sections.push (.dynamic (trim s.pending) start.column)
        pending := ""
        opened := none }
  | .char c => { s with pending := s.pending.push c }

/-- Takes in one lexeme and moves behind it. -/
def step (s : Scan) (l : Lexeme) : Scan :=
  { s.take l with position := s.position.advance l.chars }

/-- The sections of a finished reading, or where the placeholder left open was opened. -/
def finish (s : Scan) : Except Position (List Section) :=
  match s.opened with
  | some start => .error start
  | none => .ok s.flush.sections.toList

/-- Reads a run of characters to its end. -/
def ofChars (cs : List Char) : Scan :=
  (Lexeme.ofChars cs).foldl step {}

@[simp] theorem position_step (s : Scan) (l : Lexeme) :
    (s.step l).position = s.position.advance l.chars := rfl

/-- **The position is true**: a reading moves over the characters of the lexemes it takes in. -/
theorem position_foldl_step (s : Scan) (ls : List Lexeme) :
    (ls.foldl step s).position = s.position.advance (ls.flatMap Lexeme.chars) := by
  induction ls generalizing s with
  | nil => rfl
  | cons l rest ih => simp [ih]

end Scan

/-- The sections of a template text. The empty text has none. -/
def Section.parse (text : String) : Except Fault (List Section) :=
  match (Scan.ofChars text.toList).finish with
  | .ok sections => .ok sections
  | .error opened => .error (.parse (.unterminated text opened))

end Stencil
