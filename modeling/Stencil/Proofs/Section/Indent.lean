import Stencil.Proofs.Section.Parse
import Stencil.Proofs.Text.Indent

/-!
# Reading an indented text

The variants of a template are not made from its sections. The text is indented and read again, so
what the sections of a variant have to do with those of the text has to be shown.

The spaces of an indentation are lexemes of their own and leave all others as they are
(`Lexeme.ofChars_indentChars`). A scan of the indented text goes side by side with one of the text
and has taken in the same lexemes, but for the spaces (`Scan.Indented`, kept by one lexeme with the
spaces behind it in `Scan.Indented.step`).

So a text that can be read can be read at every column, and section by section it is the same but
for the spaces in literal text, the columns of the placeholders, and their keys: a key is indented
like any other text (`Section.parse_indent`, `Section.map_key?_parse_indent`).
-/

namespace Stencil

open Text (indentChars padding trim)

/-! ### Lexemes of an indented text -/

namespace Lexeme

/-- Lexemes with the spaces of an indentation put between them. -/
def indent (column : Nat) : List Lexeme → List Lexeme
  | [] => []
  | l :: rest =>
    l :: ((padding column l.chars (rest.flatMap chars)).map char ++ indent column rest)

theorem indentChars_chars (column : Nat) (l : Lexeme) : indentChars column l.chars = l.chars := by
  cases l with
  | opening | closing => rfl
  | char c => simp [chars, indentChars, Text.lineHasText]

theorem flatMap_chars_map_char (cs : List Char) : (cs.map char).flatMap chars = cs := by
  rw [List.flatMap_map]
  exact List.flatMap_singleton' cs

/-- The lexemes are those of the indented text, when they are written. -/
theorem flatMap_chars_indent (column : Nat) (ls : List Lexeme) :
    (indent column ls).flatMap chars = indentChars column (ls.flatMap chars) := by
  induction ls with
  | nil => rfl
  | cons l rest ih =>
    rw [indent, List.flatMap_cons, List.flatMap_append, flatMap_chars_map_char, ih,
      List.flatMap_cons, Text.indentChars_append, indentChars_chars, List.append_assoc]

/-- Spaces may stand anywhere. -/
theorem isChain_spaces_append {spaces : List Char} (hspaces : ∀ c ∈ spaces, c = ' ')
    {ls : List Lexeme} (h : ls.IsChain Apart) : (spaces.map char ++ ls).IsChain Apart := by
  induction spaces with
  | nil => exact h
  | cons c rest ih =>
    obtain rfl : c = ' ' := hspaces c List.mem_cons_self
    rw [List.map_cons, List.cons_append, List.isChain_cons]
    refine ⟨fun b _ => ?_, ih fun d hd => hspaces d (List.mem_cons_of_mem _ hd)⟩
    rw [apart_char]
    intro hbrace
    exact absurd hbrace (by decide)

theorem isChain_indent {ls : List Lexeme} (h : ls.IsChain Apart) (column : Nat) :
    (indent column ls).IsChain Apart := by
  induction ls with
  | nil => exact .nil
  | cons l rest ih =>
    rw [List.isChain_cons] at h
    rw [indent, List.isChain_cons]
    have hspaces : ∀ c ∈ padding column l.chars (rest.flatMap chars), c = ' ' := fun c hc =>
      Text.eq_space_of_mem_padding hc
    refine ⟨?_, isChain_spaces_append hspaces (ih h.2)⟩
    -- what follows the lexeme is a space, or what has followed it before
    generalize padding column l.chars (rest.flatMap chars) = spaces at hspaces
    cases spaces with
    | nil =>
      cases rest with
      | nil => exact fun b hb => absurd hb (Option.not_mem_none b)
      | cons d rest => exact h.1
    | cons c spaces =>
      rintro b ⟨⟩
      obtain rfl : c = ' ' := hspaces c List.mem_cons_self
      cases l with
      | opening | closing => simp
      | char d =>
        rw [apart_char]
        rintro (rfl | rfl)
        · decide
        · decide

/-- **Spaces are lexemes of their own**: those of an indented text are the lexemes of the text, with
spaces between them. -/
theorem ofChars_indentChars (column : Nat) (cs : List Char) :
    ofChars (indentChars column cs) = indent column (ofChars cs) := by
  calc ofChars (indentChars column cs)
      = ofChars ((indent column (ofChars cs)).flatMap chars) := by
        rw [flatMap_chars_indent, flatMap_chars_ofChars]
    _ = indent column (ofChars cs) := ofChars_flatMap_chars (isChain_indent (isChain_ofChars cs) _)

end Lexeme

/-! ### Scans side by side -/

/-- What a section becomes when the text around it is indented. Behind literal text a placeholder
follows. -/
inductive Section.Indented (column : Nat) : Section → Section → Prop where
  | static (text : String) :
    Indented column (.static text)
      (.static (String.ofList (indentChars column text.toList ++ padding column text.toList ['{'])))
  | dynamic (key : String) (before after : Nat) :
    Indented column (.dynamic key before) (.dynamic (Text.indent column key) after)

namespace Scan

/-- The second scan has taken in what the first one has, indented, and the padding up to the
characters that come next. -/
structure Indented (column : Nat) (next : List Char) (s s' : Scan) : Prop where
  opened : s'.opened = none ↔ s.opened = none
  pending : s'.pending.toList =
    indentChars column s.pending.toList ++ padding column s.pending.toList next
  sections : List.Forall₂ (Section.Indented column) s.sections.toList s'.sections.toList

variable {column : Nat} {next : List Char} {s s' : Scan}

/-- A run of single characters is pending behind what was pending. -/
theorem foldl_step_map_char (cs : List Char) (s : Scan) :
    ((cs.map Lexeme.char).foldl step s).opened = s.opened ∧
      ((cs.map Lexeme.char).foldl step s).pending.toList = s.pending.toList ++ cs ∧
        ((cs.map Lexeme.char).foldl step s).sections = s.sections := by
  induction cs generalizing s with
  | nil => exact ⟨rfl, (List.append_nil _).symm, rfl⟩
  | cons c rest ih =>
    obtain ⟨hopened, hpending, hsections⟩ := ih (s.step (.char c))
    refine ⟨hopened, ?_, hsections⟩
    rw [List.map_cons, List.foldl_cons, hpending]
    simp [step, take]

/-- What is pending ends with a newline exactly when the lexeme taken in last does. -/
theorem getLast?_pending_step (s : Scan) (l : Lexeme) :
    (s.step l).pending.toList.getLast? = some '\n' ↔ l.chars.getLast? = some '\n' := by
  cases l with
  | opening =>
    have hpending : (s.step .opening).pending = "" := by
      change s.abandon.flush.pending = ""
      unfold flush
      split
      · next hempty => exact String.isEmpty_iff.mp hempty
      · rfl
    simp [hpending, Lexeme.chars]
  | closing =>
    cases hopened : s.opened with
    | none => simp [step, take, hopened, Lexeme.chars]
    | some start => simp [step, take, hopened, Lexeme.chars]
  | char c => simp [step, take, Lexeme.chars]

/-- The padding behind what is pending is the one behind the lexeme taken in last. -/
theorem padding_pending_step (s : Scan) (l : Lexeme) :
    padding column (s.step l).pending.toList next = padding column l.chars next := by
  unfold padding
  simp only [getLast?_pending_step]

theorem Indented.opened_eq_some (h : s.Indented column next s') {start : Text.Position}
    (hopened : s.opened = some start) : ∃ start', s'.opened = some start' := by
  refine Option.ne_none_iff_exists'.mp fun hnone => ?_
  rw [h.opened.mp hnone] at hopened
  exact Option.some_ne_none start hopened.symm

theorem flush_pending (s : Scan) : s.flush.pending = "" := by
  unfold flush
  split
  · next hempty => exact String.isEmpty_iff.mp hempty
  · rfl

/-- A placeholder that is given up is given up in both. -/
theorem Indented.abandon (h : s.Indented column next s') :
    s'.abandon.pending.toList = indentChars column s.abandon.pending.toList ++
      padding column s.abandon.pending.toList next := by
  unfold Scan.abandon
  cases hopened : s.opened with
  | none =>
    rw [h.opened.mpr hopened]
    exact h.pending
  | some start =>
    obtain ⟨start', hopened'⟩ := h.opened_eq_some hopened
    -- the opening pair goes in front of what is pending, and has no newline
    have hlast : Lexeme.opening.chars.getLast? ≠ some '\n' := by decide
    rw [hopened']
    simp only [String.toList_append, String.toList_ofList, h.pending]
    rw [Text.indentChars_append, Text.padding_append_left hlast, Text.padding_of_getLast?_ne hlast,
      Lexeme.indentChars_chars, List.append_nil, List.append_assoc]

theorem Indented.abandon_eq_empty_iff (h : s.Indented column next s') :
    s'.abandon.pending = "" ↔ s.abandon.pending = "" := by
  rw [← String.toList_eq_nil_iff, h.abandon, List.append_eq_nil_iff, Text.indentChars_eq_nil_iff,
    String.toList_eq_nil_iff]
  refine and_iff_left_of_imp fun hempty => ?_
  rw [hempty]
  exact Text.padding_nil_left column next

/-- The key that is pending in the second scan is the one in the first, indented. -/
theorem Indented.trim_pending (h : s.Indented column next s') :
    trim s'.pending = Text.indent column (trim s.pending) := by
  rw [← String.toList_inj, Text.toList_trim, h.pending, Text.trimChars_indentChars,
    Text.toList_indent, Text.toList_trim]

/-- What is pending before a placeholder becomes a section in both, or is empty in both. -/
theorem Indented.flush (h : s.Indented column next s') (hnext : next.head? = some '{') :
    List.Forall₂ (Section.Indented column) s.abandon.flush.sections.toList
      s'.abandon.flush.sections.toList := by
  have habandon := h.abandon
  have hpadding : padding column s.abandon.pending.toList next =
      padding column s.abandon.pending.toList ['{'] := by
    obtain ⟨rest, rfl⟩ := List.head?_eq_some_iff.mp hnext
    rfl
  rw [hpadding] at habandon
  rw [flush_sections, flush_sections, abandon_sections, abandon_sections]
  refine List.rel_append h.sections ?_
  by_cases hempty : s.abandon.pending = ""
  · rw [if_pos hempty, if_pos (h.abandon_eq_empty_iff.mpr hempty)]
    exact .nil
  · rw [if_neg hempty, if_neg (mt h.abandon_eq_empty_iff.mp hempty),
      ← String.ofList_toList (s := s'.abandon.pending), habandon]
    exact .cons (.static _) .nil

/-- One lexeme, without the spaces behind it. -/
theorem Indented.take {l : Lexeme} (h : s.Indented column (l.chars ++ next) s') :
    ((s'.step l).opened = none ↔ (s.step l).opened = none) ∧
      (s'.step l).pending.toList = indentChars column (s.step l).pending.toList ∧
        List.Forall₂ (Section.Indented column) (s.step l).sections.toList
          (s'.step l).sections.toList := by
  -- a lexeme that stays pending goes behind what is pending, with the padding between them
  have hpending : s'.pending.toList ++ l.chars =
      indentChars column (s.pending.toList ++ l.chars) := by
    have hne : l.chars ≠ [] := by cases l <;> exact List.cons_ne_nil _ _
    rw [h.pending, Text.padding_append_right hne, Text.indentChars_append,
      Lexeme.indentChars_chars]
  cases l with
  | opening =>
    refine ⟨by simp [Scan.step, Scan.take], ?_, h.flush rfl⟩
    change s'.abandon.flush.pending.toList = indentChars column s.abandon.flush.pending.toList
    rw [flush_pending, flush_pending]
    rfl
  | closing =>
    cases hs : s.opened with
    | none =>
      -- a stray closing pair
      have hs' : s'.opened = none := h.opened.mpr hs
      refine ⟨by simp [Scan.step, Scan.take, hs, hs'], ?_, ?_⟩
      · simpa [Scan.step, Scan.take, hs, hs'] using hpending
      · simpa [Scan.step, Scan.take, hs, hs'] using h.sections
    | some start =>
      -- the key is what is pending, trimmed
      obtain ⟨start', hs'⟩ := h.opened_eq_some hs
      refine ⟨by simp [Scan.step, Scan.take, hs, hs'], ?_, ?_⟩
      · simp [Scan.step, Scan.take, hs, hs', indentChars]
      · simp only [Scan.step, Scan.take, hs, hs', h.trim_pending, Array.toList_push]
        exact List.rel_append h.sections (.cons (.dynamic _ _ _) .nil)
  | char c =>
    refine ⟨h.opened, ?_, h.sections⟩
    simpa [Scan.step, Scan.take, Lexeme.chars] using hpending

/-- **One lexeme at a time**: the spaces behind a lexeme are taken in with it. -/
theorem Indented.step {l : Lexeme} (h : s.Indented column (l.chars ++ next) s') :
    (s.step l).Indented column next
      (((padding column l.chars next).map Lexeme.char).foldl Scan.step (s'.step l)) := by
  obtain ⟨hopened, hpending, hsections⟩ := h.take
  obtain ⟨hopened', hpending', hsections'⟩ :=
    foldl_step_map_char (padding column l.chars next) (s'.step l)
  refine ⟨?_, ?_, ?_⟩
  · rw [hopened']
    exact hopened
  · rw [hpending', hpending, padding_pending_step]
  · rw [hsections']
    exact hsections

theorem indented_empty (column : Nat) (next : List Char) :
    ({} : Scan).Indented column next {} :=
  ⟨Iff.rfl, (Text.padding_nil_left column next).symm, .nil⟩

/-- The scans of a text and of the indented text. -/
theorem indented_ofChars (column : Nat) (cs : List Char) :
    (ofChars cs).Indented column [] (ofChars (indentChars column cs)) := by
  have hfold : ∀ (ls : List Lexeme) {s s' : Scan}, s.Indented column (ls.flatMap Lexeme.chars) s' →
      (ls.foldl Scan.step s).Indented column [] ((Lexeme.indent column ls).foldl Scan.step s') := by
    intro ls
    induction ls with
    | nil =>
      intro s s' h
      exact h
    | cons l rest ih =>
      intro s s' h
      rw [Lexeme.indent, List.foldl_cons, List.foldl_cons, List.foldl_append]
      exact ih h.step
  unfold ofChars
  rw [Lexeme.ofChars_indentChars]
  exact hfold _ (indented_empty column _)

end Scan

/-! ### Sections of an indented text -/

namespace Section

/-- The section that a text becomes, if it is not empty. -/
def ofText (text : String) : List Section :=
  if text = "" then [] else [.static text]

/-- **A text that can be read can be read at every column**, and what is read is the same but for
the indentation. No line begins behind the literal text at the end. -/
theorem parse_indent {text : String} {sections : List Section} (h : parse text = .ok sections)
    (column : Nat) :
    ∃ before before' last, sections = before ++ ofText last ∧
      parse (Text.indent column text) = .ok (before' ++ ofText (Text.indent column last)) ∧
        List.Forall₂ (Indented column) before before' := by
  obtain ⟨hopened, hpending, hsections⟩ := Scan.indented_ofChars column text.toList
  rw [Text.padding_nil_right, List.append_nil] at hpending
  unfold parse at h ⊢
  rw [Text.toList_indent]
  generalize Scan.ofChars text.toList = s at *
  generalize Scan.ofChars (indentChars column text.toList) = s' at *
  have hlast : s'.pending = Text.indent column s.pending := by
    rw [← String.toList_inj, hpending, Text.toList_indent]
  cases hs : s.opened with
  | some start => simp [Scan.finish, hs] at h
  | none =>
    simp only [Scan.finish, hs, Except.ok.injEq] at h
    simp only [Scan.finish, hopened.mpr hs]
    refine ⟨s.sections.toList, s'.sections.toList, s.pending, ?_, ?_, hsections⟩
    · rw [← h, Scan.flush_sections]
      rfl
    · rw [Scan.flush_sections, hlast]
      rfl

theorem Indented.key? {column : Nat} {s s' : Section} (h : Indented column s s') :
    s'.key? = s.key?.map (Text.indent column) := by
  cases h with
  | static text => rfl
  | dynamic key before after => rfl

/-- **Keys are indented like any other text**, and nothing else happens to them: position by
position, the key of a placeholder is the one of the text, indented. -/
theorem map_key?_parse_indent {text : String} {sections : List Section}
    (h : parse text = .ok sections) (column : Nat) :
    ∃ sections', parse (Text.indent column text) = .ok sections' ∧
      sections'.map key? = sections.map fun s => s.key?.map (Text.indent column) := by
  obtain ⟨before, before', last, rfl, hparse, hbefore⟩ := parse_indent h column
  refine ⟨_, hparse, ?_⟩
  have hmap : before'.map key? = before.map fun s => s.key?.map (Text.indent column) :=
    Lists.map_eq_map_of_forall₂ hbefore fun s _ s' _ hs => hs.key?
  have hlast : (ofText (Text.indent column last)).map key? =
      (ofText last).map fun s => s.key?.map (Text.indent column) := by
    have hempty : Text.indent column last = "" ↔ last = "" := by
      rw [← String.toList_eq_nil_iff, Text.toList_indent, Text.indentChars_eq_nil_iff,
        String.toList_eq_nil_iff]
    unfold ofText
    by_cases hl : last = ""
    · rw [if_pos hl, if_pos (hempty.mpr hl)]
      rfl
    · rw [if_neg hl, if_neg (mt hempty.mp hl)]
      rfl
  rw [List.map_append, List.map_append, hmap, hlast]

end Section

end Stencil
