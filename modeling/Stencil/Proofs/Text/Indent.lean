import Stencil.Proofs.Text.Blank
import Stencil.Text.Indent

/-!
# Indentation piece by piece

A text is indented line by line, but it is read piece by piece, and a piece may end where a line
begins. Whether that line has text is decided by the next piece, so the spaces of the line belong to
neither: they are the **padding** between the two (`indentChars_append`).

Nothing but spaces is put into a text, and none at its ends (`mem_indentChars`, `head?_indentChars`,
`getLast?_indentChars`). So it does not matter whether the blanks at the ends are removed before or
after a text is indented (`trimChars_indentChars`), whatever lines there are in the blanks.

A text that does not end with a newline is left as it is exactly when it has one line or the column
is 0 (`indentChars_eq_self_iff`).
-/

namespace Stencil.Text

/-- The spaces that an indentation puts between two pieces of a text. -/
def padding (column : Nat) (xs ys : List Char) : List Char :=
  if xs.getLast? = some '\n' ∧ lineHasText ys then List.replicate column ' ' else []

variable {column : Nat} {cs : List Char}

theorem eq_space_of_mem_padding {xs ys : List Char} {c : Char} (h : c ∈ padding column xs ys) :
    c = ' ' := by
  unfold padding at h
  split at h
  · exact List.eq_of_mem_replicate h
  · exact absurd h List.not_mem_nil

theorem padding_of_getLast?_ne {xs : List Char} (h : xs.getLast? ≠ some '\n') (ys : List Char) :
    padding column xs ys = [] :=
  if_neg fun hxs => h hxs.1

@[simp] theorem padding_nil_left (column : Nat) (ys : List Char) : padding column [] ys = [] :=
  if_neg fun h => Option.some_ne_none _ h.1.symm

@[simp] theorem padding_nil_right (column : Nat) (xs : List Char) : padding column xs [] = [] :=
  if_neg fun h => Bool.false_ne_true h.2

theorem padding_append {ys : List Char} (h : ys ≠ []) (xs zs : List Char) :
    padding column (xs ++ ys) zs = padding column ys zs := by
  cases ys with
  | nil => exact absurd rfl h
  | cons y ys => simp [padding, List.getLast?_append, List.getLast?_cons]

theorem padding_append_left {xs : List Char} (h : xs.getLast? ≠ some '\n') (ys zs : List Char) :
    padding column (xs ++ ys) zs = padding column ys zs := by
  cases ys with
  | nil => rw [List.append_nil, padding_nil_left, padding_of_getLast?_ne h]
  | cons y ys => exact padding_append (List.cons_ne_nil y ys) xs zs

theorem padding_append_right {ys : List Char} (h : ys ≠ []) (xs zs : List Char) :
    padding column xs (ys ++ zs) = padding column xs ys := by
  cases ys with
  | nil => exact absurd rfl h
  | cons y ys => rfl

theorem indentChars_cons (column : Nat) (c : Char) (rest : List Char) :
    indentChars column (c :: rest) = c :: (padding column [c] rest ++ indentChars column rest) := by
  have hlast : [c].getLast? = some '\n' ↔ c = '\n' := by
    rw [List.getLast?_singleton, Option.some_inj]
  simp only [indentChars, padding, hlast]
  split
  · rfl
  · rfl

/-- **Piece by piece**: two pieces are indented one by one, with the padding between them. -/
theorem indentChars_append (column : Nat) (xs ys : List Char) :
    indentChars column (xs ++ ys) =
      indentChars column xs ++ padding column xs ys ++ indentChars column ys := by
  induction xs with
  | nil => simp [indentChars]
  | cons c rest ih =>
    rw [List.cons_append, indentChars_cons, indentChars_cons, ih]
    cases rest with
    | nil => simp [indentChars]
    | cons d rest =>
      -- a line that `c` opens has its text in the first piece, and another one ends that piece
      have hline : padding column [c] (d :: rest ++ ys) = padding column [c] (d :: rest) := rfl
      have hlast : padding column (c :: d :: rest) ys = padding column (d :: rest) ys := by
        simp only [padding, List.getLast?_cons_cons]
      rw [hline, hlast]
      simp only [List.cons_append, List.append_assoc]

theorem mem_indentChars {c : Char} (h : c ∈ indentChars column cs) : c ∈ cs ∨ c = ' ' := by
  induction cs with
  | nil => exact absurd h List.not_mem_nil
  | cons d rest ih =>
    rw [indentChars_cons, List.mem_cons, List.mem_append] at h
    rcases h with rfl | hpadding | hrest
    · exact Or.inl List.mem_cons_self
    · exact Or.inr (eq_space_of_mem_padding hpadding)
    · exact (ih hrest).imp_left (List.mem_cons_of_mem d)

theorem mem_indentChars_of_mem {c : Char} (h : c ∈ cs) : c ∈ indentChars column cs := by
  induction cs with
  | nil => exact absurd h List.not_mem_nil
  | cons d rest ih =>
    rw [indentChars_cons]
    rcases List.mem_cons.mp h with rfl | h
    · exact List.mem_cons_self
    · exact List.mem_cons_of_mem d (List.mem_append_right _ (ih h))

@[simp] theorem head?_indentChars (column : Nat) (cs : List Char) :
    (indentChars column cs).head? = cs.head? := by
  cases cs with
  | nil => rfl
  | cons c rest => rw [indentChars_cons, List.head?_cons, List.head?_cons]

@[simp] theorem indentChars_eq_nil_iff : indentChars column cs = [] ↔ cs = [] := by
  rw [← List.head?_eq_none_iff, head?_indentChars, List.head?_eq_none_iff]

@[simp] theorem getLast?_indentChars (column : Nat) (cs : List Char) :
    (indentChars column cs).getLast? = cs.getLast? := by
  rcases List.eq_nil_or_concat cs with rfl | ⟨init, c, rfl⟩
  · rfl
  · have hlast : indentChars column [c] = [c] := by simp [indentChars, lineHasText]
    rw [List.concat_eq_append, indentChars_append, hlast, List.getLast?_concat,
      List.getLast?_concat]

/-! ### When nothing is moved -/

theorem indentChars_of_notMem (h : '\n' ∉ cs) : indentChars column cs = cs := by
  induction cs with
  | nil => rfl
  | cons c rest ih =>
    rw [List.mem_cons, not_or] at h
    have hc : ¬ (c = '\n' ∧ lineHasText rest = true) := fun hc => h.1 hc.1.symm
    rw [indentChars, if_neg hc, ih h.2]

/-- A text in one line comes from itself only. -/
theorem indent_eq_iff_of_notMem {text line : String} (h : '\n' ∉ line.toList) :
    indent column text = line ↔ text = line := by
  have hself : ∀ {s : String}, '\n' ∉ s.toList → indent column s = s := fun hs => by
    rw [indent, indentChars_of_notMem hs, String.ofList_toList]
  refine ⟨?_, ?_⟩
  · rintro rfl
    rw [toList_indent] at h
    exact (hself (mt mem_indentChars_of_mem h)).symm
  · rintro rfl
    exact hself h

theorem length_le_length_indentChars (column : Nat) (cs : List Char) :
    cs.length ≤ (indentChars column cs).length := by
  induction cs with
  | nil => exact Nat.le_refl _
  | cons c rest ih =>
    rw [indentChars_cons, List.length_cons, List.length_cons, List.length_append]
    omega

/-- A text with more than one line, the last one not empty, has a line that is moved. -/
theorem length_add_le_length_indentChars (column : Nat) (hmem : '\n' ∈ cs)
    (hlast : cs.getLast? ≠ some '\n') : cs.length + column ≤ (indentChars column cs).length := by
  induction cs with
  | nil => exact absurd hmem List.not_mem_nil
  | cons c rest ih =>
    rw [indentChars_cons, List.length_cons, List.length_cons, List.length_append]
    by_cases hrest : '\n' ∈ rest
    · -- a line further on is moved
      have hne : rest ≠ [] := List.ne_nil_of_mem hrest
      rw [List.getLast?_cons_of_ne_nil hne] at hlast
      have hlength := ih hrest hlast
      omega
    · -- the newline is the first character, and the line behind it has text
      obtain rfl : '\n' = c := (List.mem_cons.mp hmem).resolve_right hrest
      have hline : lineHasText rest = true := by
        cases rest with
        | nil => exact absurd rfl hlast
        | cons d rest =>
          have hd : d ≠ '\n' := by
            rintro rfl
            exact hrest List.mem_cons_self
          simpa [lineHasText] using hd
      have hpadding : padding column ['\n'] rest = List.replicate column ' ' := if_pos ⟨rfl, hline⟩
      have hlength := length_le_length_indentChars column rest
      rw [hpadding, List.length_replicate]
      omega

/-- **When a text is left as it is.** -/
theorem indentChars_eq_self_iff (hlast : cs.getLast? ≠ some '\n') :
    indentChars column cs = cs ↔ column = 0 ∨ '\n' ∉ cs := by
  refine ⟨?_, ?_⟩
  · intro heq
    by_contra h
    obtain ⟨hcolumn, hmem⟩ := not_or.mp h
    have hlength := length_add_le_length_indentChars column (not_not.mp hmem) hlast
    rw [heq] at hlength
    omega
  · rintro (rfl | hmem)
    · exact indentChars_zero cs
    · exact indentChars_of_notMem hmem

/-! ### Blanks at the ends -/

theorem isBlank_of_mem_padding {xs ys : List Char} : ∀ c ∈ padding column xs ys, isBlank c := by
  intro c hc
  rw [eq_space_of_mem_padding hc]
  decide

theorem isBlank_of_mem_indentChars (h : ∀ c ∈ cs, isBlank c) :
    ∀ c ∈ indentChars column cs, isBlank c := by
  intro c hc
  rcases mem_indentChars hc with hc | rfl
  · exact h c hc
  · decide

/-- **Trimming and indenting**: a text that is indented and then trimmed is the trimmed text,
indented. The padding behind it is trimmed as well. -/
theorem trimChars_indentChars (column : Nat) (cs next : List Char) :
    trimChars (indentChars column cs ++ padding column cs next) =
      indentChars column (trimChars cs) := by
  obtain ⟨left, right, hblank, hcs⟩ := exists_margins cs
  obtain ⟨hleft, hright⟩ := List.forall_mem_append.mp hblank
  have hhead : ∀ c ∈ (indentChars column (trimChars cs)).head?, isBlank c = false := by
    rw [head?_indentChars]
    exact fun c => isBlank_of_mem_head?_trimChars
  have hlast : ∀ c ∈ (indentChars column (trimChars cs)).getLast?, isBlank c = false := by
    rw [getLast?_indentChars]
    exact fun c => isBlank_of_mem_getLast?_trimChars
  -- the core is indented by itself, and all that is put around it is blank
  have hindent : indentChars column cs =
      (indentChars column left ++ padding column left (trimChars cs)) ++
        indentChars column (trimChars cs) ++
          (padding column (left ++ trimChars cs) right ++ indentChars column right) := by
    calc indentChars column cs
        = indentChars column (left ++ trimChars cs ++ right) := by rw [← hcs]
      _ = _ := by rw [indentChars_append, indentChars_append, List.append_assoc]
  rw [hindent, List.append_assoc]
  refine trimChars_append ?_ ?_ hhead hlast
  · exact List.forall_mem_append.mpr ⟨isBlank_of_mem_indentChars hleft, isBlank_of_mem_padding⟩
  · exact List.forall_mem_append.mpr ⟨List.forall_mem_append.mpr
      ⟨isBlank_of_mem_padding, isBlank_of_mem_indentChars hright⟩, isBlank_of_mem_padding⟩

end Stencil.Text
