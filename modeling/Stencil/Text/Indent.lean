/-!
# Indenting a text

`indent column text` moves every line of `text` but the first to the right by `column` spaces.
An empty line stays empty. So a block of lines that is put in place of a placeholder at
`column` keeps its lines under its first one.

The work is done on characters (`indentChars`): a newline is followed by the spaces exactly when
the line it opens has a character.
-/

namespace Stencil.Text

/-- Whether the line that starts here has a character. -/
def lineHasText : List Char → Bool
  | [] => false
  | c :: _ => c != '\n'

/-- Puts `column` spaces at the start of every line that has text and follows a newline. -/
def indentChars (column : Nat) : List Char → List Char
  | [] => []
  | c :: rest =>
    if c = '\n' ∧ lineHasText rest then
      c :: (List.replicate column ' ' ++ indentChars column rest)
    else
      c :: indentChars column rest

/-- A text with every line after the first moved to the right, empty lines excepted. -/
def indent (column : Nat) (text : String) : String :=
  String.ofList (indentChars column text.toList)

@[simp] theorem toList_indent (column : Nat) (text : String) :
    (indent column text).toList = indentChars column text.toList :=
  String.toList_ofList

@[simp] theorem indentChars_zero (cs : List Char) : indentChars 0 cs = cs := by
  induction cs with
  | nil => rfl
  | cons c rest ih => simp [indentChars, ih]

/-- Column 0 moves nothing. -/
@[simp] theorem indent_zero (text : String) : indent 0 text = text := by
  rw [indent, indentChars_zero, String.ofList_toList]

example : indent 2 "a\nb\n\nc\n" = "a\n  b\n\n  c\n" := by decide

end Stencil.Text
