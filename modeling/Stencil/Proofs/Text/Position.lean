import Mathlib.Data.List.DropRight
import Mathlib.Data.List.Induction
import Stencil.Proofs.Text.Indent
import Stencil.Text.Position

/-!
# Columns of an indented text

The position behind a text can be read off it: there are as many lines above as the text has
newlines, and the column is the length of its last line (`Position.advance_eq`).

A text is indented from its second line on. So the column of a place in it grows by the column to
which the text is indented if there is a newline before the place, and stays what it is otherwise
(`column_advance_indentChars`). The place has to be in a line that has text, since an empty line is
not moved.
-/

namespace Stencil.Text

/-- The characters of a text behind its last newline. -/
def lastLine (cs : List Char) : List Char :=
  cs.rtakeWhile (· ≠ '\n')

theorem lastLine_concat (cs : List Char) (c : Char) :
    lastLine (cs ++ [c]) = if c = '\n' then [] else lastLine cs ++ [c] := by
  rw [lastLine, List.rtakeWhile_concat]
  by_cases hc : c = '\n'
  · simp [hc]
  · rw [if_pos (decide_eq_true hc), if_neg hc, lastLine]

/-- **The position behind a text**, as the text itself shows it. -/
theorem Position.advance_eq (cs : List Char) :
    Position.advance {} cs = ⟨cs.count '\n', (lastLine cs).length⟩ := by
  induction cs using List.reverseRecOn with
  | nil => rfl
  | append_singleton rest c ih =>
    rw [advance_append, ih, advance_cons, advance_nil, next, lastLine_concat]
    by_cases hc : c = '\n'
    · simp [hc]
    · -- any other character goes on with the last line
      have hcount : (rest ++ [c]).count '\n' = rest.count '\n' := by simp [hc]
      rw [if_neg hc, if_neg hc, hcount, List.length_append, List.length_singleton]

/-- Within a line every character is one column. -/
theorem Position.column_advance_of_notMem {cs : List Char} (h : '\n' ∉ cs) (p : Position) :
    (p.advance cs).column = p.column + cs.length := by
  induction cs generalizing p with
  | nil => rfl
  | cons c rest ih =>
    obtain ⟨hc, hrest⟩ := List.ne_and_not_mem_of_not_mem_cons h
    have hnext : (p.next c).column = p.column + 1 := by rw [next, if_neg (Ne.symm hc)]
    rw [advance_cons, ih hrest, hnext, List.length_cons]
    omega

/-- **The column behind an indented text** that goes on with text in its last line. -/
theorem column_advance_indentChars (column : Nat) (cs : List Char) {next : List Char}
    (h : lineHasText next = true) :
    (Position.advance {} (indentChars column cs ++ padding column cs next)).column =
      if '\n' ∈ cs then (Position.advance {} cs).column + column
      else (Position.advance {} cs).column := by
  -- the last character decides whether the line has just begun, and is what its line goes on with
  -- for the characters before it
  induction cs using List.reverseRecOn generalizing next with
  | nil =>
    rw [padding_nil_left]
    rfl
  | append_singleton rest c ih =>
    have hone : indentChars column [c] = [c] := by simp [indentChars, lineHasText]
    rw [indentChars_append, hone, padding_append (List.cons_ne_nil c []), Position.advance_append,
      Position.advance_append, Position.advance_append {} rest]
    by_cases hc : c = '\n'
    · subst hc
      have hspaces : padding column ['\n'] next = List.replicate column ' ' := if_pos ⟨rfl, h⟩
      have hstart : ∀ p : Position, (p.advance ['\n']).column = 0 := fun p => rfl
      rw [hspaces, Position.column_advance_of_notMem (by simp), List.length_replicate,
        if_pos (by simp), hstart, hstart]
    · have hnone : padding column [c] next = [] :=
        padding_of_getLast?_ne (by simpa using hc) next
      have hmem : '\n' ∈ rest ++ [c] ↔ '\n' ∈ rest := by simp [Ne.symm hc]
      have hline : lineHasText [c] = true := by simpa [lineHasText] using hc
      have hstep : ∀ p : Position, (p.advance [c]).column = p.column + 1 := fun p =>
        Position.column_advance_of_notMem (by simpa using Ne.symm hc) p
      rw [hnone, Position.advance_nil, hstep, hstep, ih hline]
      simp only [hmem]
      split <;> omega

end Stencil.Text
