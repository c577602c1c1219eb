import Stencil.Proofs.Section.Indent
import Stencil.Proofs.Text.Position

/-!
# The pieces of an indented text

A text that can be read is cut by its sections into pieces: literal text stands for itself, a
placeholder for its braces with what is between them (`Section.Spelled`). Between the pieces nothing
is left out.

When the text is indented, each section is moved where it stands (`Section.moved`). How depends on
the text before its piece and on the text behind it: a placeholder is shifted if there is a newline
before it, and literal text that ends with a newline gets the spaces of the next line if that line
has text. The main statement is `Section.parse_indent_iff`: a text and the indented text are read
alike, and the sections of the second are those of the first, moved one by one.

The scans of the two texts go side by side as in `Scan.Indented`. What is added is the cut of what
has been read so far (`Scan.Cuts`, kept by one lexeme in `Scan.Cuts.step`).
-/

namespace Stencil

open Text (indentChars padding trim Position)
open Lexeme (opening closing)

/-! ### Sections where they stand -/

namespace Section

/-- The characters that a section is written with. -/
inductive Spelled : List Char → Section → Prop where
  | static (text : String) : Spelled text.toList (.static text)
  | dynamic (raw : String) (column : Nat) :
    Spelled (opening.chars ++ raw.toList ++ closing.chars) (.dynamic (trim raw) column)

/-- What becomes of a section that stands between two parts of a text, when the text is indented.
In literal text, every newline is followed by the spaces of the line that it opens, if the line has
text. A placeholder with a newline before it is shifted with its line. -/
def moved (column : Nat) (before behind : List Char) : Section → Section
  | static text =>
    static (String.ofList
      (indentChars column text.toList ++ padding column text.toList behind))
  | dynamic key start =>
    dynamic (Text.indent column key) (if '\n' ∈ before then start + column else start)
  | inner key start =>
    inner (Text.indent column key) (if '\n' ∈ before then start + column else start)

/-- The sections of a cut text, each moved where it stands between `before` and `behind`. -/
def movedAll (column : Nat) (before : List Char) (cut : List (List Char × Section))
    (behind : List Char) : List Section :=
  match cut with
  | [] => []
  | (piece, s) :: rest =>
    s.moved column before (rest.flatMap Prod.fst ++ behind) ::
      movedAll column (before ++ piece) rest behind

variable {column : Nat}

theorem movedAll_append (before : List Char) (cut cut' : List (List Char × Section))
    (behind : List Char) :
    movedAll column before (cut ++ cut') behind =
      movedAll column before cut (cut'.flatMap Prod.fst ++ behind) ++
        movedAll column (before ++ cut.flatMap Prod.fst) cut' behind := by
  induction cut generalizing before with
  | nil => simp [movedAll]
  | cons x rest ih =>
    obtain ⟨piece, s⟩ := x
    simp only [List.cons_append, movedAll, ih, List.flatMap_append, List.append_assoc,
      List.flatMap_cons]

theorem length_movedAll (before : List Char) (cut : List (List Char × Section))
    (behind : List Char) : (movedAll column before cut behind).length = cut.length := by
  induction cut generalizing before with
  | nil => rfl
  | cons x rest ih => rw [movedAll, List.length_cons, List.length_cons, ih]

/-- Each section is moved where it stands in the cut. -/
theorem getElem?_movedAll (before : List (List Char × Section)) (x : List Char × Section)
    (behind : List (List Char × Section)) :
    (movedAll column [] (before ++ x :: behind) [])[before.length]? =
      some (x.2.moved column (before.flatMap Prod.fst) (behind.flatMap Prod.fst)) := by
  rw [movedAll_append, List.getElem?_append_right (length_movedAll ..).le, length_movedAll,
    Nat.sub_self, movedAll, List.append_nil]
  rfl

end Section

/-! ### Cuts of two scans side by side -/

namespace Scan

variable {column : Nat} {read next : List Char} {cut : List (List Char × Section)} {s s' : Scan}

/-- The text read by the first scan is cut at its sections, but for what is not given to a section
yet. The sections of the second scan, which has taken in the indented text, are those of the cut,
moved where they stand. -/
structure Cuts (column : Nat) (read next : List Char) (cut : List (List Char × Section))
    (s s' : Scan) : Prop where
  indented : s.Indented column next s'
  read_eq : read = cut.flatMap Prod.fst ++ s.abandon.pending.toList
  spelled : ∀ x ∈ cut, x.2.Spelled x.1
  sections : s.sections.toList = cut.map Prod.snd
  moved : s'.sections.toList =
    Section.movedAll column [] cut (s.abandon.pending.toList ++ next)
  position : s.position = Position.advance {} read
  position_moved :
    s'.position = Position.advance {} (indentChars column read ++ padding column read next)
  /-- A placeholder is opened where the cut ends. -/
  opened : ∀ p p', s.opened = some p → s'.opened = some p' →
    p'.column = if '\n' ∈ cut.flatMap Prod.fst then p.column + column else p.column

theorem sections_flush_abandon (s : Scan) :
    s.abandon.flush.sections.toList = s.sections.toList ++ Section.ofText s.abandon.pending := by
  rw [flush_sections, abandon_sections]
  rfl

/-- What is pending at an opening pair or at the end becomes the last piece, unless it is empty. -/
theorem Cuts.flush (h : Cuts column read next cut s s') :
    ∃ cut', read = cut'.flatMap Prod.fst ∧ (∀ x ∈ cut', x.2.Spelled x.1) ∧
      s.abandon.flush.sections.toList = cut'.map Prod.snd ∧
      s'.abandon.flush.sections.toList = Section.movedAll column [] cut' next := by
  have hpending := h.indented.abandon
  rw [sections_flush_abandon, sections_flush_abandon, h.sections, h.moved]
  unfold Section.ofText
  by_cases hempty : s.abandon.pending = ""
  · rw [if_pos hempty, if_pos (h.indented.abandon_eq_empty_iff.mpr hempty), List.append_nil,
      List.append_nil]
    refine ⟨cut, ?_, h.spelled, rfl, ?_⟩
    · rw [h.read_eq, hempty]
      exact List.append_nil _
    · rw [hempty]
      rfl
  · rw [if_neg hempty, if_neg (mt h.indented.abandon_eq_empty_iff.mp hempty)]
    refine ⟨cut ++ [(s.abandon.pending.toList, .static s.abandon.pending)], ?_, ?_, ?_, ?_⟩
    · rw [h.read_eq, List.flatMap_append, List.flatMap_singleton]
    · exact List.forall_mem_append.mpr
        ⟨h.spelled, List.forall_mem_singleton.mpr (.static _)⟩
    · rw [List.map_append]
      rfl
    · rw [Section.movedAll_append, List.flatMap_singleton,
        ← String.ofList_toList (s := s'.abandon.pending), hpending]
      rfl

/-- **One lexeme at a time**: the cut is kept, with one more piece if the lexeme ends one. -/
theorem Cuts.step {l : Lexeme} (h : Cuts column read (l.chars ++ next) cut s s') :
    ∃ cut', Cuts column (read ++ l.chars) next cut' (s.step l)
      (((padding column l.chars next).map Lexeme.char).foldl Scan.step (s'.step l)) := by
  obtain ⟨hopened', -, hsections'⟩ :=
    foldl_step_map_char (padding column l.chars next) (s'.step l)
  have hindented := h.indented.step
  have hposition : (s.step l).position = Position.advance {} (read ++ l.chars) := by
    rw [position_step, h.position, Position.advance_append]
  have hposition' : (((padding column l.chars next).map Lexeme.char).foldl Scan.step
      (s'.step l)).position = Position.advance {} (indentChars column (read ++ l.chars) ++
        padding column (read ++ l.chars) next) := by
    have hne : l.chars ≠ [] := by cases l <;> exact List.cons_ne_nil _ _
    rw [position_foldl_step, position_step, h.position_moved, Lexeme.flatMap_chars_map_char,
      Text.indentChars_append, Text.padding_append_right hne, Lexeme.indentChars_chars,
      Text.padding_append hne]
    simp only [Position.advance_append]
  -- a lexeme that ends no piece stays behind what is pending
  have hkept : (s.step l).abandon.pending.toList = s.abandon.pending.toList ++ l.chars →
      (s.step l).sections = s.sections → (s'.step l).sections = s'.sections →
      (s.step l).opened = s.opened → (s'.step l).opened = s'.opened →
      ∃ cut', Cuts column (read ++ l.chars) next cut' (s.step l)
        (((padding column l.chars next).map Lexeme.char).foldl Scan.step (s'.step l)) := by
    intro hpending hsections hmoved hopened hopened_moved
    refine ⟨cut, hindented, ?_, h.spelled, ?_, ?_, hposition, hposition', ?_⟩
    · rw [hpending, h.read_eq, List.append_assoc]
    · rw [hsections, h.sections]
    · rw [hsections', hmoved, h.moved, hpending, List.append_assoc]
    · rw [hopened', hopened, hopened_moved]
      exact h.opened
  cases l with
  | opening =>
    -- all that has been read is given to sections, so the placeholder is opened where the cut ends
    obtain ⟨cut', hread, hspelled, hsections, hmoved⟩ := h.flush
    have hpending : (s.step .opening).abandon.pending.toList = opening.chars := by
      change (String.ofList opening.chars ++ s.abandon.flush.pending).toList = opening.chars
      rw [flush_pending]
      simp
    refine ⟨cut', hindented, ?_, hspelled, hsections, ?_, hposition, hposition', ?_⟩
    · rw [hpending, hread]
    · rw [hsections', hpending]
      exact hmoved
    · rw [hopened', ← hread]
      rintro p p' ⟨⟩ ⟨⟩
      rw [h.position, h.position_moved]
      exact Text.column_advance_indentChars column read rfl
  | closing =>
    cases hs : s.opened with
    | none =>
      -- a stray closing pair
      have hs' : s'.opened = none := h.indented.opened.mpr hs
      refine hkept ?_ ?_ ?_ ?_ ?_ <;> simp [Scan.step, take, abandon, hs, hs', Lexeme.chars]
    | some start =>
      obtain ⟨start', hs'⟩ := h.indented.opened_eq_some hs
      have hcurrent : s.abandon.pending.toList = opening.chars ++ s.pending.toList := by
        simp [abandon, hs]
      have hempty : (s.step .closing).abandon.pending.toList = [] := by
        simp [Scan.step, take, abandon, hs]
      refine ⟨cut ++ [(s.abandon.pending.toList ++ closing.chars,
        .dynamic (trim s.pending) start.column)], hindented, ?_, ?_, ?_, ?_, hposition,
          hposition', ?_⟩
      · rw [hempty, h.read_eq]
        simp
      · refine List.forall_mem_append.mpr ⟨h.spelled, List.forall_mem_singleton.mpr ?_⟩
        rw [hcurrent]
        exact .dynamic _ _
      · simp [Scan.step, take, hs, h.sections]
      · have hcolumn := h.opened start start' hs hs'
        rw [hsections', hempty, Section.movedAll_append, List.flatMap_singleton]
        simp [Scan.step, take, hs', h.moved, Section.movedAll, Section.moved, hcolumn,
          h.indented.trim_pending]
      · intro p p' hp
        simp [Scan.step, take, hs] at hp
  | char c =>
    refine hkept ?_ rfl rfl rfl rfl
    cases hs : s.opened <;> simp [Scan.step, take, abandon, hs, Lexeme.chars]

/-- The scans of a text and of the indented text. -/
theorem exists_cuts_ofChars (column : Nat) (cs : List Char) :
    ∃ cut, Cuts column cs [] cut (ofChars cs) (ofChars (indentChars column cs)) := by
  have hfold : ∀ (ls : List Lexeme) {read cut} {s s' : Scan},
      Cuts column read (ls.flatMap Lexeme.chars) cut s s' →
      ∃ cut', Cuts column (read ++ ls.flatMap Lexeme.chars) [] cut' (ls.foldl Scan.step s)
        ((Lexeme.indent column ls).foldl Scan.step s') := by
    intro ls
    induction ls with
    | nil =>
      intro read cut s s' h
      rw [List.flatMap_nil, List.append_nil]
      exact ⟨cut, h⟩
    | cons l rest ih =>
      intro read cut s s' h
      obtain ⟨cut', h'⟩ := h.step
      rw [Lexeme.indent, List.foldl_cons, List.foldl_cons, List.foldl_append, List.flatMap_cons,
        ← List.append_assoc]
      exact ih h'
  have hstart : Cuts column [] ((Lexeme.ofChars cs).flatMap Lexeme.chars) [] {} {} := by
    refine ⟨indented_empty column _, rfl, ?_, rfl, rfl, rfl, ?_, ?_⟩
    · exact fun x hx => absurd hx List.not_mem_nil
    · rw [Text.padding_nil_left]
      rfl
    · exact fun p p' hp => absurd hp (Option.some_ne_none p).symm
  obtain ⟨cut, h⟩ := hfold _ hstart
  rw [List.nil_append, Lexeme.flatMap_chars_ofChars, ← Lexeme.ofChars_indentChars] at h
  exact ⟨cut, h⟩

theorem finish_of_opened_eq_none {s : Scan} (h : s.opened = none) :
    s.finish = .ok s.abandon.flush.sections.toList := by
  rw [finish, abandon, h]

theorem finish_of_opened_eq_some {s : Scan} {start : Position} (h : s.opened = some start) :
    s.finish = .error start := by
  rw [finish, h]

end Scan

/-! ### Reading the indented text -/

namespace Section

/-- A text that can be read is cut at its sections, and the indented text has the sections of the
cut, moved. -/
theorem exists_cut_of_parse {text : String} {sections : List Section}
    (h : parse text = .ok sections) (column : Nat) :
    ∃ cut : List (List Char × Section), cut.flatMap Prod.fst = text.toList ∧
      cut.map Prod.snd = sections ∧ (∀ x ∈ cut, x.2.Spelled x.1) ∧
        parse (Text.indent column text) = .ok (movedAll column [] cut []) := by
  obtain ⟨cut, hcut⟩ := Scan.exists_cuts_ofChars column text.toList
  obtain ⟨cut', hread, hspelled, hsections, hmoved⟩ := hcut.flush
  have hopened := hcut.indented.opened
  unfold parse at h ⊢
  rw [Text.toList_indent]
  cases hs : (Scan.ofChars text.toList).opened with
  | some start => simp [Scan.finish_of_opened_eq_some hs] at h
  | none =>
    rw [Scan.finish_of_opened_eq_none hs] at h
    rw [Scan.finish_of_opened_eq_none (hopened.mpr hs)]
    refine ⟨cut', hread.symm, ?_, hspelled, congrArg Except.ok hmoved⟩
    rw [← hsections]
    exact Except.ok.inj h

theorem exists_parse_indent_iff {text : String} {column : Nat} :
    (∃ sections, parse (Text.indent column text) = .ok sections) ↔
      ∃ sections, parse text = .ok sections := by
  have hopened := (Scan.indented_ofChars column text.toList).opened
  have hfinish : ∀ text : String, (∃ sections, parse text = .ok sections) ↔
      (Scan.ofChars text.toList).opened = none := by
    intro text
    unfold parse
    cases hs : (Scan.ofChars text.toList).opened with
    | some start => simp [Scan.finish_of_opened_eq_some hs]
    | none => simp [Scan.finish_of_opened_eq_none hs]
  rw [hfinish, hfinish, Text.toList_indent, hopened]

/-- **Indenting a text does not change how it is read.** The indented text can be read exactly when
the text can. Then the text is cut at its sections, and section by section the indented text has the
same, moved where it stands: a placeholder by `column` if there is a newline before it, and literal
text by the spaces of the lines that begin in it and have text. A key in one line is the same. -/
theorem parse_indent_iff (text : String) (column : Nat) :
    ((∃ sections, parse (Text.indent column text) = .ok sections) ↔
        ∃ sections, parse text = .ok sections) ∧
      (∀ sections sections', parse text = .ok sections →
        parse (Text.indent column text) = .ok sections' →
        sections'.length = sections.length ∧
          ∃ cut : List (List Char × Section), cut.flatMap Prod.fst = text.toList ∧
            cut.map Prod.snd = sections ∧ (∀ x ∈ cut, x.2.Spelled x.1) ∧
              ∀ before x behind, cut = before ++ x :: behind →
                sections'[before.length]? = some (x.2.moved column (before.flatMap Prod.fst)
                  (behind.flatMap Prod.fst))) ∧
      ∀ key : String, '\n' ∉ key.toList → Text.indent column key = key := by
  refine ⟨exists_parse_indent_iff, fun sections sections' h h' => ?_, fun key hkey => ?_⟩
  · obtain ⟨cut, htext, rfl, hspelled, hmoved⟩ := exists_cut_of_parse h column
    obtain rfl := Except.ok.inj (h'.symm.trans hmoved)
    refine ⟨by rw [length_movedAll, List.length_map], cut, htext, rfl, hspelled, ?_⟩
    rintro before x behind rfl
    exact getElem?_movedAll before x behind
  · rw [Text.indent, Text.indentChars_of_notMem hkey, String.ofList_toList]

/-- A placeholder in a line of its own, an empty line, and an opening pair that is given up. -/
theorem parse_indent_iff_lines :
    parse "x\n{{a}}\n\ny \x7b\x7bb {{c}}\n" = .ok [.static "x\n", .dynamic "a" 0,
      .static "\n\ny ", .static "\x7b\x7bb ", .dynamic "c" 6, .static "\n"] ∧
    parse (Text.indent 2 "x\n{{a}}\n\ny \x7b\x7bb {{c}}\n") = .ok [.static "x\n  ",
      .dynamic "a" 2, .static "\n\n  y ", .static "\x7b\x7bb ", .dynamic "c" 8, .static "\n"] ∧
    ∃ cut : List (List Char × Section), cut.map Prod.snd = [.static "x\n", .dynamic "a" 0,
        .static "\n\ny ", .static "\x7b\x7bb ", .dynamic "c" 6, .static "\n"] ∧
      (∀ x ∈ cut, x.2.Spelled x.1) ∧
        ∀ before x behind, cut = before ++ x :: behind →
          [.static "x\n  ", .dynamic "a" 2, .static "\n\n  y ", .static "\x7b\x7bb ",
            .dynamic "c" 8, .static "\n"][before.length]? =
              some (x.2.moved 2 (before.flatMap Prod.fst) (behind.flatMap Prod.fst)) := by
  have h : parse "x\n{{a}}\n\ny \x7b\x7bb {{c}}\n" = .ok [.static "x\n", .dynamic "a" 0,
      .static "\n\ny ", .static "\x7b\x7bb ", .dynamic "c" 6, .static "\n"] := by
    rfl
  have h' : parse (Text.indent 2 "x\n{{a}}\n\ny \x7b\x7bb {{c}}\n") = .ok [.static "x\n  ",
      .dynamic "a" 2, .static "\n\n  y ", .static "\x7b\x7bb ", .dynamic "c" 8,
      .static "\n"] := by
    rfl
  obtain ⟨-, hmoved, -⟩ := parse_indent_iff "x\n{{a}}\n\ny \x7b\x7bb {{c}}\n" 2
  obtain ⟨-, cut, -, hsections, hspelled, hcut⟩ := hmoved _ _ h h'
  exact ⟨h, h', cut, hsections, hspelled, hcut⟩

end Section

end Stencil
