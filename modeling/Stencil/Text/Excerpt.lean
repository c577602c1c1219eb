/-!
# Excerpts

A message about a text quotes its first characters only. Three dots say that the text goes on.
-/

namespace Stencil.Text

/-- The first `width` characters of a text, followed by three dots when it has more. -/
def excerpt (width : Nat) (text : String) : String :=
  let quoted := String.ofList (text.toList.take width)
  if width < text.toList.length then quoted ++ "..." else quoted

example : excerpt 3 "abc" = "abc" ∧ excerpt 3 "abcd" = "abc..." := by decide

end Stencil.Text
