import Stencil.Proofs.Text.Indent

/-!
# Indentation line by line

The **lines** of a text are the pieces between its newlines. A text has at least one line, and its
lines joined with newlines are the text again (`intercalate_lines`).

An indentation is known by what it does to the lines (`lines_indentChars`): the first line stays as
it is, and every other one is put behind the spaces unless it is empty (`moveLine`). So whatever
holds of the way in which one line is moved holds of texts. A line that is moved twice is moved by
the sum of the columns, and where a line came from can be seen from where it is.

The main statement is `indent_action`.
-/

namespace Stencil.Text

/-- The lines of a text, each as its characters. -/
def lines (cs : List Char) : List (List Char) :=
  cs.splitOn '\n'

/-- A line behind `column` spaces. An empty line stays empty. -/
def moveLine (column : Nat) (line : List Char) : List Char :=
  if line = [] then [] else List.replicate column ' ' ++ line

/-- Lines of which every one but the first is moved. -/
def moveLines (column : Nat) : List (List Char) → List (List Char)
  | [] => []
  | first :: rest => first :: rest.map (moveLine column)

variable {column : Nat} {cs xs line : List Char}

/-! ### Lines of a text -/

theorem lines_newline (cs : List Char) : lines ('\n' :: cs) = [] :: lines cs := by
  show List.splitOnP _ _ = _
  rw [List.splitOnP_cons_eq_if_modifyHead, if_pos (beq_self_eq_true '\n')]
  rfl

/-- Any other character is the first of the first line. -/
theorem lines_cons_of_ne {c : Char} (hc : c ≠ '\n') (cs : List Char) :
    lines (c :: cs) = (lines cs).modifyHead (List.cons c) := by
  show List.splitOnP _ _ = _
  rw [List.splitOnP_cons_eq_if_modifyHead, if_neg (mt eq_of_beq hc)]
  rfl

theorem exists_lines_eq_cons (cs : List Char) : ∃ first rest, lines cs = first :: rest :=
  List.exists_cons_of_ne_nil (List.splitOn_ne_nil '\n' cs)

theorem lines_append_of_notMem (h : '\n' ∉ xs) (ys : List Char) :
    lines (xs ++ ys) = (lines ys).modifyHead (xs ++ ·) := by
  induction xs with
  | nil =>
    obtain ⟨first, rest, hlines⟩ := exists_lines_eq_cons ys
    rw [List.nil_append, hlines]
    rfl
  | cons c xs ih =>
    obtain ⟨hc, hxs⟩ := List.ne_and_not_mem_of_not_mem_cons h
    rw [List.cons_append, lines_cons_of_ne hc.symm, ih hxs, List.modifyHead_modifyHead]
    rfl

/-- **A text is its lines**, joined with newlines. -/
theorem intercalate_lines (cs : List Char) : ['\n'].intercalate (lines cs) = cs :=
  List.intercalate_splitOn '\n'

theorem lines_injective : Function.Injective lines :=
  Function.LeftInverse.injective intercalate_lines

/-! ### One line -/

theorem moveLine_of_ne_nil (h : line ≠ []) (column : Nat) :
    moveLine column line = List.replicate column ' ' ++ line :=
  if_neg h

@[simp] theorem moveLine_eq_nil_iff : moveLine column line = [] ↔ line = [] := by
  unfold moveLine
  split
  · next h => simp [h]
  · next h => simp [h]

/-- The spaces of the second move come before those of the first. -/
theorem moveLine_moveLine (a b : Nat) (line : List Char) :
    moveLine b (moveLine a line) = moveLine (a + b) line := by
  by_cases h : line = []
  · rw [h]
    rfl
  · have hmoved : moveLine a line ≠ [] := mt moveLine_eq_nil_iff.mp h
    rw [moveLine_of_ne_nil hmoved, moveLine_of_ne_nil h, moveLine_of_ne_nil h, ← List.append_assoc,
      List.replicate_append_replicate, Nat.add_comm b a]

theorem moveLine_injective (column : Nat) : Function.Injective (moveLine column) := by
  intro line other heq
  by_cases h : line = []
  · -- only an empty line is moved to an empty one
    have hother : moveLine column other = [] := heq.symm.trans (moveLine_eq_nil_iff.mpr h)
    rw [h, moveLine_eq_nil_iff.mp hother]
  · have hother : other ≠ [] := by
      rintro rfl
      exact h (moveLine_eq_nil_iff.mp heq)
    rw [moveLine_of_ne_nil h, moveLine_of_ne_nil hother] at heq
    exact List.append_cancel_left heq

/-! ### All lines -/

@[simp] theorem length_moveLines (column : Nat) (ls : List (List Char)) :
    (moveLines column ls).length = ls.length := by
  cases ls with
  | nil => rfl
  | cons first rest => rw [moveLines, List.length_cons, List.length_map, List.length_cons]

@[simp] theorem head?_moveLines (column : Nat) (ls : List (List Char)) :
    (moveLines column ls).head? = ls.head? := by
  cases ls with
  | nil => rfl
  | cons first rest => rfl

theorem getElem?_moveLines (column : Nat) (ls : List (List Char)) (i : Nat) :
    (moveLines column ls)[i]? =
      ls[i]?.map fun line => if i = 0 then line else moveLine column line := by
  cases ls with
  | nil => rfl
  | cons first rest =>
    cases i with
    | zero => rfl
    | succ i =>
      rw [moveLines, List.getElem?_cons_succ, List.getElem?_map, List.getElem?_cons_succ]
      rfl

theorem moveLines_moveLines (a b : Nat) (ls : List (List Char)) :
    moveLines b (moveLines a ls) = moveLines (a + b) ls := by
  cases ls with
  | nil => rfl
  | cons first rest =>
    have hrest : (rest.map (moveLine a)).map (moveLine b) = rest.map (moveLine (a + b)) := by
      rw [List.map_map]
      exact List.map_congr_left fun line _ => moveLine_moveLine a b line
    rw [moveLines, moveLines, moveLines, hrest]

theorem moveLines_injective (column : Nat) : Function.Injective (moveLines column) := by
  intro ls others heq
  cases ls with
  | nil =>
    cases others with
    | nil => rfl
    | cons first rest => cases heq
  | cons first rest =>
    cases others with
    | nil => cases heq
    | cons first' rest' =>
      obtain ⟨hfirst, hrest⟩ := List.cons.inj heq
      have hinj : ∀ l l', moveLine column l = moveLine column l' → l = l' := fun l l' h =>
        moveLine_injective column h
      rw [hfirst, (List.map_inj_right hinj).mp hrest]

/-! ### Indented texts -/

theorem lineHasText_iff_of_lines_eq {first : List Char} {rest : List (List Char)}
    (h : lines cs = first :: rest) : lineHasText cs = true ↔ first ≠ [] := by
  cases cs with
  | nil =>
    obtain ⟨rfl, -⟩ := List.cons.inj h
    simp [lineHasText]
  | cons c cs =>
    by_cases hc : c = '\n'
    · subst hc
      rw [lines_newline] at h
      obtain ⟨rfl, -⟩ := List.cons.inj h
      simp [lineHasText]
    · obtain ⟨line, others, hlines⟩ := exists_lines_eq_cons cs
      rw [lines_cons_of_ne hc, hlines, List.modifyHead_cons] at h
      obtain ⟨rfl, -⟩ := List.cons.inj h
      simp [lineHasText, hc]

/-- The padding at the start of a line moves it. -/
theorem padding_newline_append {first : List Char} {rest : List (List Char)}
    (h : lines cs = first :: rest) (column : Nat) :
    padding column ['\n'] cs ++ first = moveLine column first := by
  have htext := lineHasText_iff_of_lines_eq h
  by_cases hfirst : first = []
  · have hnone : padding column ['\n'] cs = [] := if_neg fun hcs => htext.mp hcs.2 hfirst
    rw [hnone, hfirst]
    rfl
  · have hspaces : padding column ['\n'] cs = List.replicate column ' ' :=
      if_pos ⟨rfl, htext.mpr hfirst⟩
    rw [hspaces, moveLine_of_ne_nil hfirst]

/-- **The lines of an indented text** are those of the text, moved. -/
theorem lines_indentChars (column : Nat) (cs : List Char) :
    lines (indentChars column cs) = moveLines column (lines cs) := by
  induction cs with
  | nil => rfl
  | cons c rest ih =>
    obtain ⟨first, others, hlines⟩ := exists_lines_eq_cons rest
    rw [hlines] at ih
    by_cases hc : c = '\n'
    · subst hc
      -- the first line of what follows is one that is moved
      have hfirst : padding column ['\n'] rest ++ first = moveLine column first :=
        padding_newline_append hlines column
      have hspaces : '\n' ∉ padding column ['\n'] rest := fun hmem =>
        absurd (eq_space_of_mem_padding hmem) (by decide)
      rw [indentChars_cons, lines_newline, lines_append_of_notMem hspaces, ih, lines_newline,
        hlines, moveLines, moveLines, List.modifyHead_cons, hfirst, List.map_cons]
    · have hnone : padding column [c] rest = [] :=
        padding_of_getLast?_ne (by simpa using hc) rest
      rw [indentChars_cons, hnone, List.nil_append, lines_cons_of_ne hc, lines_cons_of_ne hc, ih,
        hlines]
      rfl

theorem indentChars_indentChars (a b : Nat) (cs : List Char) :
    indentChars b (indentChars a cs) = indentChars (a + b) cs := by
  -- texts with the same lines are the same
  apply lines_injective
  rw [lines_indentChars, lines_indentChars, lines_indentChars, moveLines_moveLines]

theorem indent_injective (column : Nat) : Function.Injective (indent column) := by
  intro text other heq
  have hlines : moveLines column (lines text.toList) = moveLines column (lines other.toList) := by
    rw [← lines_indentChars, ← lines_indentChars, ← toList_indent, ← toList_indent, heq]
  exact String.toList_inj.mp (lines_injective (moveLines_injective column hlines))

/-- **Columns act on texts by indentation.** To indent by one column and then by another is to
indent by their sum, and column 0 does nothing. An indentation keeps the number of lines and the
first line; a line is empty as before, and every other line after the first is the one it was,
behind as many spaces as the column says. So the text can be told from the indented one. -/
theorem indent_action (text : String) :
    (∀ a b, indent b (indent a text) = indent (a + b) text) ∧
    indent 0 text = text ∧
    (∀ column,
      (lines (indent column text).toList).length = (lines text.toList).length ∧
      (lines (indent column text).toList).head? = (lines text.toList).head? ∧
      ∀ i line, (lines text.toList)[i]? = some line →
        ∃ moved, (lines (indent column text).toList)[i]? = some moved ∧ (moved = [] ↔ line = []) ∧
          (0 < i → line ≠ [] → moved = List.replicate column ' ' ++ line)) ∧
    ∀ column, Function.Injective (indent column) := by
  refine ⟨?sum, indent_zero text, fun column => ?lines, indent_injective⟩
  case sum =>
    intro a b
    rw [indent, toList_indent, indentChars_indentChars, ← indent]
  case lines =>
    rw [toList_indent, lines_indentChars]
    refine ⟨length_moveLines column _, head?_moveLines column _, fun i line hline => ?_⟩
    have hmoved := getElem?_moveLines column (lines text.toList) i
    rw [hline, Option.map_some] at hmoved
    cases i with
    | zero => exact ⟨line, hmoved, Iff.rfl, fun hpos => absurd hpos (Nat.lt_irrefl 0)⟩
    | succ i =>
      exact ⟨moveLine column line, hmoved, moveLine_eq_nil_iff,
        fun _ hne => moveLine_of_ne_nil hne column⟩

/-- A text that begins and ends with a newline and has an empty line in it. -/
theorem indent_action_blank :
    let text := "\n a\n\nb\n"
    (lines text.toList)[3]? = some ['b'] ∧ 0 < 3 ∧ ['b'] ≠ [] ∧
      (lines (indent 2 text).toList)[3]? = some [' ', ' ', 'b'] ∧
      indent 3 (indent 2 text) = "\n      a\n\n     b\n" ∧
      ∀ other, indent 5 other = "\n      a\n\n     b\n" → other = text := by
  intro text
  have hline : (lines text.toList)[3]? = some ['b'] := by decide
  have hindent : indent 5 text = "\n      a\n\n     b\n" := by decide
  obtain ⟨hsum, -, hlines, hinjective⟩ := indent_action text
  obtain ⟨-, -, hline'⟩ := hlines 2
  obtain ⟨moved, hmoved, -, hspaces⟩ := hline' 3 ['b'] hline
  rw [hspaces (by decide) (by decide)] at hmoved
  refine ⟨hline, by decide, by decide, hmoved, ?_, fun other hother => ?_⟩
  · rw [hsum]
    exact hindent
  · exact hinjective 5 (hother.trans hindent.symm)

end Stencil.Text
