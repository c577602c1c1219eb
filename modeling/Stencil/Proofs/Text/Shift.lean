import Mathlib.Data.List.Infix
import Stencil.Proofs.Text.Indent

/-!
# Shifted texts

A text is **shifted** when spaces are put behind every one of its newlines (`shift`). Unlike an
indentation, this takes no notice of what stands in the lines, so a text is shifted piece by piece
(`shift_append`), and shifts add up (`shift_shift`).

An indented text is a shifted text if no line of it but the first is empty (`Filled`). A piece of
such a text need not be filled itself, but with the padding between it and what follows it is
shifted too (`Filled.indentChars_append_padding`).
-/

namespace Stencil.Text

/-- Puts `column` spaces behind every newline. -/
def shiftChars (column : Nat) (cs : List Char) : List Char :=
  cs.flatMap fun c => if c = '\n' then c :: List.replicate column ' ' else [c]

/-- A text with `column` spaces behind every newline. -/
def shift (column : Nat) (text : String) : String :=
  String.ofList (shiftChars column text.toList)

variable {column : Nat} {cs xs ys : List Char}

theorem shiftChars_append (column : Nat) (xs ys : List Char) :
    shiftChars column (xs ++ ys) = shiftChars column xs ++ shiftChars column ys :=
  List.flatMap_append

theorem shiftChars_of_notMem (h : '\n' ∉ cs) : shiftChars column cs = cs := by
  induction cs with
  | nil => rfl
  | cons c rest ih =>
    obtain ⟨hc, hrest⟩ := not_or.mp (mt List.mem_cons.mpr h)
    rw [shiftChars, List.flatMap_cons, if_neg (Ne.symm hc), ← shiftChars, ih hrest]
    rfl

/-- **Shifts add up.** The spaces of the second shift come before those of the first. -/
theorem shiftChars_shiftChars (a b : Nat) (cs : List Char) :
    shiftChars b (shiftChars a cs) = shiftChars (a + b) cs := by
  have hspaces : shiftChars b (List.replicate a ' ') = List.replicate a ' ' :=
    shiftChars_of_notMem fun hmem => absurd (List.eq_of_mem_replicate hmem) (by decide)
  show (cs.flatMap _).flatMap _ = cs.flatMap _
  rw [List.flatMap_assoc]
  refine List.flatMap_congr fun c _ => ?_
  by_cases hc : c = '\n'
  · rw [if_pos hc, if_pos hc, List.flatMap_cons, if_pos hc, ← shiftChars, hspaces,
      List.cons_append, ← List.replicate_add, Nat.add_comm]
  · rw [if_neg hc, if_neg hc, List.flatMap_singleton, if_neg hc]

@[simp] theorem toList_shift (column : Nat) (text : String) :
    (shift column text).toList = shiftChars column text.toList :=
  String.toList_ofList

theorem shift_shift (a b : Nat) (text : String) : shift b (shift a text) = shift (a + b) text := by
  rw [shift, toList_shift, shiftChars_shiftChars, ← shift]

theorem shift_append (column : Nat) (s t : String) :
    shift column (s ++ t) = shift column s ++ shift column t := by
  rw [← String.toList_inj]
  simp only [toList_shift, String.toList_append, shiftChars_append]

theorem shift_of_notMem {text : String} (h : '\n' ∉ text.toList) : shift column text = text := by
  rw [← String.toList_inj, toList_shift, shiftChars_of_notMem h]

theorem shift_intercalate (column : Nat) (separator : String) (texts : List String) :
    shift column (String.intercalate separator texts) =
      String.intercalate (shift column separator) (texts.map (shift column)) := by
  induction texts with
  | nil => rfl
  | cons text rest ih =>
    cases rest with
    | nil =>
      rw [List.map_singleton, String.intercalate_singleton, String.intercalate_singleton]
    | cons next rest =>
      rw [List.map_cons, List.map_cons, String.intercalate_cons_cons, String.intercalate_cons_cons,
        shift_append, shift_append, ih, List.map_cons]

/-! ### Indented texts that are shifted -/

/-- No line but the first is empty. -/
structure Filled (cs : List Char) : Prop where
  no_empty_line : ¬ ['\n', '\n'] <:+: cs
  last_line : cs.getLast? ≠ some '\n'

instance (cs : List Char) : Decidable (Filled cs) :=
  decidable_of_iff (¬ ['\n', '\n'] <:+: cs ∧ cs.getLast? ≠ some '\n')
    ⟨fun h => ⟨h.1, h.2⟩, fun h => ⟨h.1, h.2⟩⟩

theorem Filled.of_append (h : Filled (xs ++ ys)) : Filled ys := by
  refine ⟨fun hempty => ?_, fun hlast => ?_⟩
  · exact h.no_empty_line (hempty.trans (List.suffix_append xs ys).isInfix)
  · exact h.last_line (by rw [List.getLast?_append, hlast, Option.some_or])

/-- A line of a filled text that is opened by a newline has text. -/
theorem Filled.lineHasText {rest : List Char} (h : Filled ('\n' :: rest)) :
    lineHasText rest = true := by
  cases rest with
  | nil => exact absurd rfl h.last_line
  | cons c rest =>
    have hc : c ≠ '\n' := by
      rintro rfl
      exact h.no_empty_line (List.prefix_append ['\n', '\n'] rest).isInfix
    show (c != '\n') = true
    rw [bne_iff_ne]
    exact hc

/-- **A filled text is indented by shifting it.** -/
theorem Filled.indentChars_eq (h : Filled cs) : indentChars column cs = shiftChars column cs := by
  induction cs with
  | nil => rfl
  | cons c rest ih =>
    have hrest : Filled rest := @Filled.of_append [c] rest h
    have hcons : shiftChars column (c :: rest) =
        (if c = '\n' then c :: List.replicate column ' ' else [c]) ++ shiftChars column rest :=
      List.flatMap_cons
    rw [hcons, indentChars, ih hrest]
    by_cases hc : c = '\n'
    · -- an indentation skips empty lines, and this one is not empty
      subst hc
      rw [if_pos ⟨rfl, h.lineHasText⟩, if_pos rfl, List.cons_append]
    · rw [if_neg fun hline => hc hline.1, if_neg hc, List.singleton_append]

/-- A piece of a filled text is shifted when the text is indented. -/
theorem Filled.indentChars_append_padding (h : Filled (xs ++ ys)) :
    indentChars column xs ++ padding column xs ys = shiftChars column xs := by
  -- the whole is shifted and the part behind is, so what is left is shifted as well
  have hwhole : indentChars column (xs ++ ys) = shiftChars column (xs ++ ys) := h.indentChars_eq
  rw [indentChars_append, shiftChars_append, h.of_append.indentChars_eq] at hwhole
  exact List.append_cancel_right hwhole

end Stencil.Text
