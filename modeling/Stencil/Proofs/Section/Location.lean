import Stencil.Proofs.Section.Cut

/-!
# Where placeholders open

A scan counts lines and columns as it goes. What it says of a place is what the text before that
place shows: the lines above are its newlines, and the column is the length of its last line.

* A placeholder has the column at which its braces open (`Section.Cut.measured`). What counts is
  the text before them, whatever was read there: literal text, other placeholders, an opening pair
  that was given up.
* A text that ends inside a placeholder is refused at the last opening pair that is read
  (`Section.opened_of_parse_eq_error`). Which pairs are read is said by `Lexeme.OpensAfter`.

For the first statement the scan is followed lexeme by lexeme with the cut of what it has read
(`Scan.Located`). For the second it is enough to know the lexemes.
-/

namespace Stencil

open Lexeme (opening closing)
open Text (Position lastLine trim)

/-! ### Opening pairs that are read -/

namespace Lexeme

/-- An opening pair is read behind `before`. Of the braces in a row the pairs are taken from the
left, so those that stand right before this one are pairs. -/
def OpensAfter (cs before : List Char) : Prop :=
  before ++ opening.chars <+: cs ∧ Even (trailingBraces before)

/-- An opening pair is read where it is among the lexemes. -/
theorem opensAfter_iff {cs before : List Char} :
    OpensAfter cs before ↔
      ∃ ls rest, ofChars cs = ls ++ opening :: rest ∧ before = ls.flatMap chars := by
  have hchain : ∀ {ls rest : List Lexeme}, (ls ++ opening :: rest).IsChain Apart ↔
      (ls.IsChain Apart ∧ ls.getLast? ≠ some (char '{')) ∧ rest.IsChain Apart :=
    Decomposition.isChain_append_cons_iff (fun _ => Decomposition.apart_opening_right) apart_opening
  refine ⟨?_, ?_⟩
  · rintro ⟨⟨behind, rfl⟩, heven⟩
    -- the parts are read one by one, since the part before does not end with a single brace
    have hlast := Decomposition.getLast?_ofChars_ne_iff.mpr heven
    have hread := ofChars_flatMap_chars
      (hchain.mpr ⟨⟨isChain_ofChars before, hlast⟩, isChain_ofChars behind⟩)
    rw [List.flatMap_append, List.flatMap_cons, flatMap_chars_ofChars, flatMap_chars_ofChars,
      ← List.append_assoc] at hread
    exact ⟨_, _, hread, (flatMap_chars_ofChars before).symm⟩
  · rintro ⟨ls, rest, hread, rfl⟩
    have hapart := isChain_ofChars cs
    rw [hread, hchain] at hapart
    refine ⟨⟨rest.flatMap chars, ?_⟩, (getLast?_ne_iff hapart.1.1).mp hapart.1.2⟩
    rw [← flatMap_chars_ofChars cs, hread, List.flatMap_append, List.flatMap_cons,
      List.append_assoc]

/-- **The last opening pair that is read**: all others stand before it. -/
theorem OpensAfter.prefix_of_last {cs other : List Char} {ls rest : List Lexeme}
    (hread : ofChars cs = ls ++ opening :: rest) (hlast : opening ∉ rest)
    (h : OpensAfter cs other) : other <+: ls.flatMap chars := by
  obtain ⟨ls', rest', hread', rfl⟩ := opensAfter_iff.mp h
  rcases List.append_eq_append_iff.mp (hread.symm.trans hread') with ⟨as, rfl, heq⟩ | ⟨bs, rfl, -⟩
  · -- a pair further on would be the last one itself, or behind it
    cases as with
    | nil => simp
    | cons a as =>
      obtain ⟨-, rfl⟩ := List.cons.inj heq
      exact absurd (List.mem_append_right as List.mem_cons_self) hlast
  · rw [List.flatMap_append]
    exact List.prefix_append _ _

end Lexeme

/-! ### A placeholder that is left open -/

/-- A scan that is in a placeholder has it opened at the last opening pair. -/
theorem Scan.exists_last_opening {ls : List Lexeme} {start : Position}
    (h : (ls.foldl step {}).opened = some start) :
    ∃ before behind, ls = before ++ opening :: behind ∧ opening ∉ behind ∧
      start = Position.advance {} (before.flatMap Lexeme.chars) := by
  induction ls using List.reverseRecOn generalizing start with
  | nil => exact absurd h (Option.some_ne_none start).symm
  | append_singleton rest l ih =>
    rw [List.foldl_append, List.foldl_cons, List.foldl_nil] at h
    cases l with
    | opening =>
      -- the pair just read opens a placeholder where the scan stands
      obtain rfl : (rest.foldl step {}).position = start := Option.some.inj h
      exact ⟨rest, [], rfl, List.not_mem_nil, position_foldl_step {} rest⟩
    | closing =>
      -- behind a closing pair no placeholder is open
      cases hopened : (rest.foldl step {}).opened <;> simp [step, take, hopened] at h
    | char c =>
      obtain ⟨before, behind, rfl, hlast, hstart⟩ := ih h
      refine ⟨before, behind ++ [.char c], by simp, ?_, hstart⟩
      simpa using hlast

/-- **A text is refused at the last opening pair that is read.** -/
theorem Section.opened_of_parse_eq_error {text : String} {fault : Fault}
    (h : parse text = .error fault) :
    ∃ before, Lexeme.OpensAfter text.toList before ∧
      (∀ other, Lexeme.OpensAfter text.toList other → other <+: before) ∧
        fault = .parse (.unterminated text ⟨before.count '\n', (lastLine before).length⟩) := by
  unfold parse at h
  cases hopened : (Scan.ofChars text.toList).opened with
  | none =>
    rw [Scan.finish_of_opened_eq_none hopened] at h
    cases h
  | some start =>
    obtain ⟨ls, rest, hread, hlast, hstart⟩ := Scan.exists_last_opening hopened
    rw [Scan.finish_of_opened_eq_some hopened] at h
    refine ⟨ls.flatMap Lexeme.chars, Lexeme.opensAfter_iff.mpr ⟨ls, rest, hread, rfl⟩,
      fun other hother => hother.prefix_of_last hread hlast, ?_⟩
    rw [← Position.advance_eq, ← hstart]
    exact (Except.error.inj h).symm

/-! ### The columns of placeholders -/

namespace Section

/-- The placeholders of a cut have the columns at which they open. -/
def Measured (cut : List (List Char × Section)) : Prop :=
  ∀ front piece key column back, cut = front ++ (piece, .dynamic key column) :: back →
    column = (lastLine (front.flatMap Prod.fst)).length

theorem Measured.concat {cut : List (List Char × Section)} (h : Measured cut) {piece : List Char}
    {s : Section} (hs : ∀ key column, s = .dynamic key column →
      column = (lastLine (cut.flatMap Prod.fst)).length) :
    Measured (cut ++ [(piece, s)]) := by
  intro front piece' key column back heq
  rcases List.eq_nil_or_concat back with rfl | ⟨init, last, rfl⟩
  · -- the placeholder is the piece at the end
    obtain ⟨rfl, hlast⟩ := List.append_inj' heq rfl
    obtain ⟨-, rfl⟩ := Prod.mk.inj (List.cons.inj hlast).1
    exact hs key column rfl
  · rw [List.concat_eq_append, ← List.cons_append, ← List.append_assoc] at heq
    exact h front piece' key column init (List.append_inj' heq rfl).1

end Section

namespace Scan

variable {read : List Char} {cut : List (List Char × Section)} {s : Scan}

/-- What a scan has read is cut at its sections, but for what is not given to a section yet. The
placeholders were opened where the pieces before them end. -/
structure Located (read : List Char) (cut : List (List Char × Section)) (s : Scan) : Prop where
  read_eq : read = cut.flatMap Prod.fst ++ s.abandon.pending.toList
  spelled : ∀ x ∈ cut, x.2.Spelled x.1
  sections : s.sections.toList = cut.map Prod.snd
  measured : Section.Measured cut
  position : s.position = Position.advance {} read
  opened : ∀ start, s.opened = some start → start = Position.advance {} (cut.flatMap Prod.fst)

/-- What is pending at an opening pair or at the end becomes the last piece, unless it is empty. -/
theorem Located.flush (h : Located read cut s) :
    ∃ cut', read = cut'.flatMap Prod.fst ∧ (∀ x ∈ cut', x.2.Spelled x.1) ∧
      s.abandon.flush.sections.toList = cut'.map Prod.snd ∧ Section.Measured cut' := by
  rw [sections_flush_abandon, h.sections, Section.ofText]
  by_cases hempty : s.abandon.pending = ""
  · rw [if_pos hempty, List.append_nil]
    refine ⟨cut, ?_, h.spelled, rfl, h.measured⟩
    rw [h.read_eq, hempty]
    exact List.append_nil _
  · rw [if_neg hempty]
    refine ⟨cut ++ [(s.abandon.pending.toList, .static s.abandon.pending)], ?_, ?_, ?_,
      h.measured.concat fun key column heq => nomatch heq⟩
    · rw [h.read_eq, List.flatMap_append, List.flatMap_singleton]
    · exact List.forall_mem_append.mpr ⟨h.spelled, List.forall_mem_singleton.mpr (.static _)⟩
    · rw [List.map_append]
      rfl

/-- **One lexeme at a time**: the cut is kept, with one more piece if the lexeme ends one. -/
theorem Located.step (h : Located read cut s) (l : Lexeme) :
    ∃ cut', Located (read ++ l.chars) cut' (s.step l) := by
  have hposition : (s.step l).position = Position.advance {} (read ++ l.chars) := by
    rw [position_step, h.position, Position.advance_append]
  cases l with
  | opening =>
    -- all that was read is given to sections, and the placeholder opens behind it
    obtain ⟨cut', hread, hspelled, hsections, hmeasured⟩ := h.flush
    refine ⟨cut', ?_, hspelled, hsections, hmeasured, hposition, ?_⟩
    · have hpending : (s.step .opening).abandon.pending.toList = opening.chars := by
        show (String.ofList opening.chars ++ s.abandon.flush.pending).toList = opening.chars
        rw [flush_pending]
        simp
      rw [hpending, hread]
    · rintro start ⟨⟩
      rw [← hread]
      exact h.position
  | closing =>
    cases hs : s.opened with
    | none =>
      -- a stray closing pair goes on with what is pending
      refine ⟨cut, ?_, h.spelled, ?_, h.measured, hposition, ?_⟩
      · rw [h.read_eq]
        simp [Scan.step, take, abandon, hs]
      · simpa [Scan.step, take, hs] using h.sections
      · simp [Scan.step, take, hs]
    | some start =>
      have hpending : s.abandon.pending.toList = opening.chars ++ s.pending.toList := by
        simp [abandon, hs]
      have hcolumn : start.column = (lastLine (cut.flatMap Prod.fst)).length := by
        rw [h.opened start hs, Position.advance_eq]
      refine ⟨cut ++ [(s.abandon.pending.toList ++ closing.chars,
        .dynamic (trim s.pending) start.column)], ?_, ?_, ?_, h.measured.concat ?_, hposition, ?_⟩
      · have hempty : (s.step .closing).abandon.pending.toList = [] := by
          simp [Scan.step, take, abandon, hs]
        rw [hempty, h.read_eq]
        simp
      · refine List.forall_mem_append.mpr ⟨h.spelled, List.forall_mem_singleton.mpr ?_⟩
        rw [hpending]
        exact .dynamic _ _
      · simp [Scan.step, take, hs, h.sections]
      · rintro key column ⟨⟩
        exact hcolumn
      · simp [Scan.step, take, hs]
  | char c =>
    refine ⟨cut, ?_, h.spelled, h.sections, h.measured, hposition, h.opened⟩
    rw [h.read_eq]
    cases hs : s.opened <;> simp [Scan.step, take, abandon, hs, Lexeme.chars]

/-- The scan of a text has located all of it. -/
theorem exists_located_ofChars (cs : List Char) : ∃ cut, Located cs cut (ofChars cs) := by
  suffices hfold : ∀ ls : List Lexeme, ∃ cut,
      Located (ls.flatMap Lexeme.chars) cut (ls.foldl Scan.step {}) by
    have h := hfold (Lexeme.ofChars cs)
    rwa [Lexeme.flatMap_chars_ofChars] at h
  intro ls
  induction ls using List.reverseRecOn with
  | nil =>
    refine ⟨[], rfl, fun x hx => absurd hx List.not_mem_nil, rfl, ?_, rfl, ?_⟩
    · intro front piece key column back heq
      exact absurd heq (by simp)
    · exact fun start h => absurd h (Option.some_ne_none start).symm
  | append_singleton rest l ih =>
    obtain ⟨cut, h⟩ := ih
    rw [List.foldl_append, List.flatMap_append, List.flatMap_singleton]
    exact h.step l

end Scan

namespace Section

variable {text : String}

/-- **A placeholder has the column at which its braces open.** -/
theorem Cut.measured {cut : List (List Char × Section)} (h : Cut text cut) : Measured cut := by
  obtain ⟨cut', hcut'⟩ := Scan.exists_located_ofChars text.toList
  obtain ⟨cut', hread, hspelled, hsections, hmeasured⟩ := hcut'.flush
  have hparse := h.parse_eq
  unfold parse at hparse
  cases hopened : (Scan.ofChars text.toList).opened with
  | some start =>
    rw [Scan.finish_of_opened_eq_some hopened] at hparse
    cases hparse
  | none =>
    rw [Scan.finish_of_opened_eq_none hopened, hsections] at hparse
    have hsame : cut'.map Prod.snd = cut.map Prod.snd := Except.ok.inj hparse
    -- there is only one cut
    have hcut : Cut text cut' := ⟨hread.symm, hsame ▸ h.parse_eq, hspelled⟩
    rwa [h.unique hcut]

/-- **Positions are true.** A text that can be read is cut at its sections in one way, and each
placeholder has as its column the number of characters between the last newline before its braces,
wherever that newline stands, and the braces. A text that cannot be read is refused at the last
opening pair that is read: the report counts the newlines before that pair and the characters since
the last of them, both from one, and quotes the first ten characters of the text, with three dots if
there are more. -/
theorem positions_of_parse (text : String) :
    (∀ sections, parse text = .ok sections →
      ∃ cut, Cut text cut ∧ cut.map Prod.snd = sections ∧ (∀ other, Cut text other → other = cut) ∧
        ∀ front piece key column back, cut = front ++ (piece, .dynamic key column) :: back →
          column = (lastLine (front.flatMap Prod.fst)).length) ∧
      ∀ fault, parse text = .error fault →
        ∃ before, Lexeme.OpensAfter text.toList before ∧
          (∀ other, Lexeme.OpensAfter text.toList other → other <+: before) ∧
            fault.report = .parse ("unterminated placeholder in template starting with \""
              ++ (String.ofList (text.toList.take 10)
                ++ if 10 < text.toList.length then "..." else "")
              ++ "\" at line " ++ toString (1 + before.count '\n')
              ++ " and column " ++ toString (1 + (lastLine before).length)) := by
  refine ⟨fun sections h => ?_, fun fault h => ?_⟩
  · obtain ⟨cut, hcut, hsections⟩ := exists_cut h
    exact ⟨cut, hcut, hsections, fun other hother => hother.unique hcut, hcut.measured⟩
  · obtain ⟨before, hopens, hlast, rfl⟩ := opened_of_parse_eq_error h
    have hexcerpt : Text.excerpt excerptWidth text = String.ofList (text.toList.take 10)
        ++ if 10 < text.toList.length then "..." else "" := by
      unfold Text.excerpt excerptWidth
      split
      · rfl
      · rw [String.append_empty]
    refine ⟨before, hopens, hlast, ?_⟩
    rw [← hexcerpt, Nat.add_comm 1, Nat.add_comm 1]
    rfl

/-- Newlines inside a placeholder and behind an opening pair that is given up, and a text that ends
behind two opening pairs in a row. -/
theorem positions_of_parse_lines :
    (∃ cut, Cut "x \x7b\x7ba\nb\x7d\x7d \x7b\x7bc\n d {{e}}" cut ∧
      cut.map Prod.snd = [.static "x ", .dynamic "a\nb" 2, .static " ", .static "\x7b\x7bc\n d ",
        .dynamic "e" 3] ∧
      ∀ front piece key column back, cut = front ++ (piece, .dynamic key column) :: back →
        column = (lastLine (front.flatMap Prod.fst)).length) ∧
    parse "one line\nab \x7b\x7b\x7b\x7bc" =
      .error (.parse (.unterminated "one line\nab \x7b\x7b\x7b\x7bc" ⟨1, 5⟩)) ∧
    ∃ before, Lexeme.OpensAfter "one line\nab \x7b\x7b\x7b\x7bc".toList before ∧
      (∀ other, Lexeme.OpensAfter "one line\nab \x7b\x7b\x7b\x7bc".toList other →
        other <+: before) ∧
      "unterminated placeholder in template starting with \"one line\na...\" at line 2 and column 6"
        = "unterminated placeholder in template starting with \"one line\na...\" at line "
          ++ toString (1 + before.count '\n') ++ " and column "
          ++ toString (1 + (lastLine before).length) := by
  have hrefused : parse "one line\nab \x7b\x7b\x7b\x7bc" =
      .error (.parse (.unterminated "one line\nab \x7b\x7b\x7b\x7bc" ⟨1, 5⟩)) := by
    rfl
  have hread : parse "x \x7b\x7ba\nb\x7d\x7d \x7b\x7bc\n d {{e}}" = .ok [.static "x ",
      .dynamic "a\nb" 2, .static " ", .static "\x7b\x7bc\n d ", .dynamic "e" 3] := by
    rfl
  obtain ⟨cut, hcut, hsections, -, hmeasured⟩ := (positions_of_parse _).1 _ hread
  obtain ⟨before, hopens, hlast, hreport⟩ := (positions_of_parse _).2 _ hrefused
  refine ⟨⟨cut, hcut, hsections, hmeasured⟩, hrefused, before, hopens, hlast, ?_⟩
  have hdetail : ParseFault.detail (.unterminated "one line\nab \x7b\x7b\x7b\x7bc" ⟨1, 5⟩) =
      "unterminated placeholder in template starting with "
        ++ "\"one line\na...\" at line 2 and column 6" := by
    decide
  simpa [Fault.report, hdetail] using hreport

end Section

end Stencil
