import Stencil.Proofs.Lists
import Stencil.Proofs.Outcome
import Stencil.Proofs.Section.Decomposition
import Stencil.Proofs.Text.Blank
import Stencil.Section.Scan

/-!
# What the sections of a text are

The sections of a text are those of its regular decomposition (`Decomposition.Reads`): each gap is
copied by sections of literal text, each placeholder is a section with its key, which is what stands
between the braces without the blanks at its ends.

A scan and the reading of the same lexemes go side by side (`Scan.Tracks`), one lexeme at a time
(`Scan.Tracks.step`). So a text is accepted exactly when its reading ends outside placeholders
(`parse_reads`, `parse_refuses`).

The main statement is `parse_decomposition`: the texts accepted are those of the grammar, and
nothing of them is lost.
-/

namespace Stencil

open Lexeme
open Text (trim isBlank exists_margins)

/-! ### Sections of a decomposition -/

/-- Sections of literal text, none of them empty, that spell a gap. -/
def Section.Copies (sections : List Section) (gap : List Char) : Prop :=
  ∃ texts : List String, sections = texts.map .static ∧ (∀ s ∈ texts, s ≠ "") ∧
    texts.flatMap String.toList = gap

/-- The sections of a placeholder and of the gap before it. -/
def Section.Places (sections : List Section) (p : List Char × List Char) : Prop :=
  ∃ copy column, Copies copy p.1 ∧
    sections = copy ++ [.dynamic (trim (String.ofList p.2)) column]

/-- The sections of a text that is cut in a certain way. -/
def Decomposition.Reads (sections : List Section) (d : Decomposition) : Prop :=
  ∃ blocks tail, sections = List.flatten blocks ++ tail ∧
    List.Forall₂ Section.Places blocks d.placed ∧ Section.Copies tail d.last

/-- A text from its sections, with the blanks given for the two sides of each key. -/
def Section.write : List Section → List (List Char × List Char) → List Char
  | [], _ => []
  | .static text :: rest, margins => text.toList ++ write rest margins
  | .dynamic key _ :: rest, margins | .inner key _ :: rest, margins =>
    let (left, right) := margins.headD ([], [])
    opening.chars ++ left ++ key.toList ++ right ++ closing.chars ++ write rest margins.tail

namespace Section

theorem copies_nil : Copies [] [] :=
  ⟨[], rfl, fun _ h => absurd h List.not_mem_nil, rfl⟩

/-- A gap goes on with a text that becomes a section unless it is empty. -/
theorem Copies.append {sections : List Section} {gap : List Char} (h : Copies sections gap)
    (text : String) :
    Copies (sections ++ if text = "" then [] else [.static text]) (gap ++ text.toList) := by
  by_cases htext : text = ""
  -- no section is made of an empty text
  · simpa [htext] using h
  · obtain ⟨texts, rfl, hne, rfl⟩ := h
    refine ⟨texts ++ [text], by simp [htext], ?_, by simp⟩
    intro s hs
    rcases List.mem_append.mp hs with hs | hs
    · exact hne s hs
    · rwa [List.mem_singleton.mp hs]

end Section

/-! ### Scans and readings side by side -/

/-- The lexemes that a scan has not given to a section: the gap, or the placeholder being read. -/
def Reading.current (r : Reading) : List Lexeme :=
  match r.raw with
  | none => r.gap
  | some raw => raw

/-- The lexemes of the gap that a scan has given to sections, which it does at opening pairs. -/
def Reading.copied (r : Reading) : List Lexeme :=
  match r.raw with
  | none => []
  | some _ => r.gap

namespace Scan

/-- A scan has the sections of what a reading has found. -/
structure Tracks (s : Scan) (r : Reading) : Prop where
  /-- Both are in a placeholder or neither is. -/
  opened : s.opened = none ↔ r.raw = none
  pending : s.pending.toList = r.current.flatMap chars
  sections : ∃ blocks tail, s.sections.toList = List.flatten blocks ++ tail ∧
    List.Forall₂ Section.Places blocks r.decomposition.placed ∧
      Section.Copies tail (r.copied.flatMap chars)

theorem flush_sections (s : Scan) :
    s.flush.sections.toList =
      s.sections.toList ++ if s.pending = "" then [] else [.static s.pending] := by
  unfold flush
  by_cases h : s.pending = ""
  · simp [h]
  · simp [h]

theorem abandon_sections (s : Scan) : s.abandon.sections = s.sections := by
  unfold abandon
  split <;> rfl

/-- With an opening pair given up, all that came since the last placeholder is copied or pending. -/
theorem Tracks.abandon_pending {s : Scan} {r : Reading} (h : s.Tracks r) :
    r.copied.flatMap chars ++ s.abandon.pending.toList = r.pending.flatMap chars := by
  obtain ⟨hopened, hpending, -⟩ := h
  obtain ⟨placed, gap, raw⟩ := r
  unfold abandon
  cases raw with
  | none =>
    rw [hopened.mpr rfl]
    exact hpending
  | some raw =>
    obtain ⟨start, hstart⟩ :=
      Option.ne_none_iff_exists'.mp (mt hopened.mp (Option.some_ne_none raw))
    rw [hstart]
    -- the opening pair goes in front of what was read of the placeholder
    simp [Reading.pending, Reading.copied, hpending, Reading.current, String.toList_ofList]

theorem Tracks.step {s : Scan} {r : Reading} (h : s.Tracks r) (l : Lexeme) :
    (s.step l).Tracks (r.step l) := by
  have habandon := h.abandon_pending
  obtain ⟨hopened, hpending, blocks, tail, hsections, hblocks, htail⟩ := h
  cases l with
  | opening =>
    -- what came since the last placeholder is copied, whether or not a placeholder is given up
    have hcopy := htail.append s.abandon.pending
    rw [habandon] at hcopy
    refine ⟨by simp [Scan.step, take, Reading.step], ?_, blocks, _, ?_, hblocks, hcopy⟩
    · change (s.abandon.flush).pending.toList = []
      unfold flush
      split <;> simp_all
    · change (s.abandon.flush).sections.toList = _
      rw [flush_sections, abandon_sections, hsections, List.append_assoc]
  | closing =>
    obtain ⟨placed, gap, raw⟩ := r
    cases raw with
    | none =>
      -- a stray closing pair goes on with the gap
      have hnone : s.opened = none := hopened.mpr rfl
      refine ⟨by simp [Scan.step, take, Reading.step, hnone], ?_, blocks, tail, ?_, hblocks, htail⟩
      · simp [Scan.step, take, hnone, Reading.step, hpending, Reading.current]
      · simpa [Scan.step, take, hnone] using hsections
    | some raw =>
      obtain ⟨start, hstart⟩ :=
        Option.ne_none_iff_exists'.mp (mt hopened.mp (Option.some_ne_none raw))
      -- the placeholder and the gap before it are a block of sections
      have hkey : s.pending = String.ofList (raw.flatMap chars) := by
        rw [← String.ofList_toList (s := s.pending), hpending]
        rfl
      have hblock : Section.Places (tail ++ [.dynamic (trim s.pending) start.column])
          (gap.flatMap chars, raw.flatMap chars) :=
        ⟨tail, start.column, htail, by rw [hkey]⟩
      refine ⟨by simp [Scan.step, take, Reading.step, hstart], ?_,
        blocks ++ [tail ++ [.dynamic (trim s.pending) start.column]], [], ?_, ?_,
        Section.copies_nil⟩
      · simp [Scan.step, take, Reading.step, hstart, Reading.current]
      · simp [Scan.step, take, hstart, hsections]
      · simpa [Reading.step, Reading.decomposition] using
          List.rel_append hblocks (.cons hblock .nil)
  | char c =>
    -- in a gap and in a placeholder alike the character becomes pending
    obtain ⟨placed, gap, raw⟩ := r
    cases raw with
    | none | some raw =>
      refine ⟨by simpa [Scan.step, take, Reading.step] using hopened, ?_, blocks, tail, hsections,
        hblocks, htail⟩
      simp [Scan.step, take, Reading.step, hpending, Reading.current, chars]

/-- A scan has the sections of what the reading of the same lexemes has found. -/
theorem tracks_ofChars (cs : List Char) :
    (ofChars cs).Tracks (Reading.ofLexemes (Lexeme.ofChars cs)) := by
  unfold ofChars Reading.ofLexemes
  generalize Lexeme.ofChars cs = ls
  induction ls using List.reverseRecOn with
  | nil => exact ⟨by simp, rfl, [], [], rfl, .nil, Section.copies_nil⟩
  | append_singleton rest l ih =>
    rw [List.foldl_append, List.foldl_append]
    exact ih.step l

end Scan

/-! ### Accepted texts -/

namespace Section

/-- A text whose reading ends outside placeholders is accepted, with the sections of its
decomposition. -/
theorem parse_reads {text : String}
    (h : (Reading.ofLexemes (Lexeme.ofChars text.toList)).raw = none) :
    ∃ sections, parse text = .ok sections ∧
      (Reading.ofLexemes (Lexeme.ofChars text.toList)).decomposition.Reads sections := by
  obtain ⟨hopened, hpending, blocks, tail, hsections, hblocks, htail⟩ :=
    Scan.tracks_ofChars text.toList
  unfold parse
  generalize Scan.ofChars text.toList = s at *
  generalize Reading.ofLexemes (Lexeme.ofChars text.toList) = r at *
  obtain ⟨placed, gap, raw⟩ := r
  obtain rfl : raw = none := h
  -- the gap behind the last placeholder is copied when the scan is finished
  have hcopy := htail.append s.pending
  rw [hpending] at hcopy
  refine ⟨s.flush.sections.toList, by simp [Scan.finish, hopened.mpr rfl], blocks, _, ?_, hblocks,
    hcopy⟩
  rw [Scan.flush_sections, hsections, List.append_assoc]

theorem parse_refuses {text : String}
    (h : (Reading.ofLexemes (Lexeme.ofChars text.toList)).raw ≠ none) (sections : List Section) :
    parse text ≠ .ok sections := by
  have hopened := mt (Scan.tracks_ofChars text.toList).opened.mp h
  obtain ⟨start, hstart⟩ := Option.ne_none_iff_exists'.mp hopened
  simp [parse, Scan.finish, hstart]

theorem exists_parse_iff {text : String} :
    (∃ sections, parse text = .ok sections) ↔
      (Reading.ofLexemes (Lexeme.ofChars text.toList)).raw = none := by
  refine ⟨?_, ?_⟩
  · intro h
    obtain ⟨sections, hsections⟩ := h
    by_contra h
    exact parse_refuses h sections hsections
  · intro h
    obtain ⟨sections, hsections, -⟩ := parse_reads h
    exact ⟨sections, hsections⟩

theorem reads_of_parse {text : String} {sections : List Section}
    (h : parse text = .ok sections) :
    (Reading.ofLexemes (Lexeme.ofChars text.toList)).decomposition.Reads sections := by
  obtain ⟨sections', hsections', hreads⟩ := parse_reads (exists_parse_iff.mp ⟨sections, h⟩)
  obtain rfl : sections = sections' := Except.ok.inj (h.symm.trans hsections')
  exact hreads

theorem Copies.exists_static {copy : List Section} {gap : List Char} (h : Copies copy gap)
    {s : Section} (hs : s ∈ copy) : ∃ text, s = .static text := by
  obtain ⟨texts, rfl, -, -⟩ := h
  obtain ⟨text, -, rfl⟩ := List.mem_map.mp hs
  exact ⟨text, rfl⟩

/-- A section that is read copies text, or is a dynamic placeholder with a trimmed key. -/
theorem mem_parse_cases {text : String} {sections : List Section} (h : parse text = .ok sections)
    {s : Section} (hs : s ∈ sections) :
    (∃ copied, s = .static copied) ∨ ∃ raw column, s = .dynamic (trim raw) column := by
  obtain ⟨blocks, tail, rfl, hblocks, htail⟩ := reads_of_parse h
  rcases List.mem_append.mp hs with hs | hs
  · obtain ⟨block, hblock, hs⟩ := List.mem_flatten.mp hs
    obtain ⟨p, -, copy, column, hcopy, rfl⟩ := Lists.exists_of_mem_right hblocks.flip hblock
    rcases List.mem_append.mp hs with hs | hs
    · exact Or.inl (hcopy.exists_static hs)
    · exact Or.inr ⟨_, column, List.mem_singleton.mp hs⟩
  · exact Or.inl (htail.exists_static hs)

/-- Inner placeholders do not come from a text alone. -/
theorem inner_notMem_parse {text : String} {sections : List Section}
    (h : parse text = .ok sections) (key : String) (column : Nat) :
    .inner key column ∉ sections := by
  intro hmem
  rcases mem_parse_cases h hmem with ⟨_, heq⟩ | ⟨_, _, heq⟩
  · cases heq
  · cases heq

theorem exists_trim_of_parse {text : String} {sections : List Section}
    (h : parse text = .ok sections) {key : String} (hkey : some key ∈ sections.map key?) :
    ∃ raw, key = trim raw := by
  obtain ⟨s, hs, hkey⟩ := List.mem_map.mp hkey
  rcases mem_parse_cases h hs with ⟨copied, rfl⟩ | ⟨raw, column, rfl⟩
  · cases hkey
  · exact ⟨raw, (Option.some.inj hkey).symm⟩

/-! ### Writing sections back -/

theorem Copies.write_append {copy : List Section} {gap : List Char} (h : Copies copy gap)
    (rest : List Section) (margins : List (List Char × List Char)) :
    write (copy ++ rest) margins = gap ++ write rest margins := by
  obtain ⟨texts, rfl, -, rfl⟩ := h
  induction texts with
  | nil => rfl
  | cons text texts ih =>
    rw [List.map_cons, List.cons_append, write, ih, List.flatMap_cons, List.append_assoc]

/-- **Writing back**: sections with the blanks around their keys restored are the text. -/
theorem exists_write {d : Decomposition} {sections : List Section} (h : d.Reads sections) :
    ∃ margins : List (List Char × List Char),
      margins.length = d.placed.length ∧ (∀ m ∈ margins, ∀ c ∈ m.1 ++ m.2, isBlank c) ∧
        write sections margins = d.spell := by
  obtain ⟨placed, last⟩ := d
  obtain ⟨blocks, tail, rfl, hblocks, htail⟩ := h
  change List.Forall₂ Places blocks placed at hblocks
  -- block by block, with the margins of the placeholder in front of those that follow
  induction hblocks with
  | nil =>
    refine ⟨[], rfl, fun m hm => absurd hm List.not_mem_nil, ?_⟩
    rw [List.flatten_nil, List.nil_append, ← List.append_nil tail, htail.write_append]
    exact List.append_nil last
  | @cons block p blocks placed hblock _ ih =>
    obtain ⟨gap, raw⟩ := p
    obtain ⟨copy, column, hcopy, rfl⟩ := hblock
    obtain ⟨margins, hlength, hblank, hwrite⟩ := ih htail
    obtain ⟨left, right, hsides, hraw⟩ := exists_margins raw
    refine ⟨(left, right) :: margins, by simp [hlength], ?_, ?_⟩
    · intro m hm
      rcases List.mem_cons.mp hm with rfl | hm
      · exact hsides
      · exact hblank m hm
    · -- the key is what is left of the placeholder between its margins
      have hkey : (trim (String.ofList raw)).toList = Text.trimChars raw := by
        rw [Text.toList_trim, String.toList_ofList]
      rw [List.flatten_cons, List.append_assoc, List.append_assoc, hcopy.write_append,
        List.singleton_append, write, hkey, List.tail_cons, hwrite]
      conv_rhs => rw [Decomposition.spell, List.flatMap_cons, hraw]
      simp [Decomposition.spell]

/-! ### The grammar accepted -/

/-- **Parsing accepts its grammar and loses nothing.** A text is accepted exactly when it has no
opening pair or the last one has a closing pair behind it, which is when it has a regular
decomposition. There is only one then, the sections are those of its gaps and placeholders in their
order, and with the blanks around the keys restored they are the text. -/
theorem parse_decomposition (text : String) :
    ((∃ sections, parse text = .ok sections) ↔
        (¬ opening.chars <:+: text.toList ∨
          ∃ before behind, text.toList = before ++ opening.chars ++ behind ∧
            ¬ opening.chars <:+: '{' :: behind ∧ closing.chars <:+: behind)) ∧
      ((∃ sections, parse text = .ok sections) ↔
        ∃ d : Decomposition, d.Regular ∧ d.spell = text.toList) ∧
      ∀ sections, parse text = .ok sections →
        ∃ d : Decomposition, d.Regular ∧ d.spell = text.toList ∧
          (∀ e : Decomposition, e.Regular → e.spell = text.toList → e = d) ∧
          d.Reads sections ∧
          ∃ margins : List (List Char × List Char),
            margins.length = d.placed.length ∧ (∀ m ∈ margins, ∀ c ∈ m.1 ++ m.2, isBlank c) ∧
              write sections margins = text.toList := by
  -- a regular decomposition of the text is the one that its reading gives
  have honly : ∀ e : Decomposition, e.Regular → e.spell = text.toList →
      e.reading = Reading.ofLexemes (Lexeme.ofChars text.toList) := by
    intro e he hspell
    rw [← hspell, he.reading_eq]
  refine ⟨?_, ?_, ?_⟩
  · rw [exists_parse_iff, Reading.raw_ofLexemes_eq_none_iff, opening_mem_ofChars,
      lastClosed_ofChars]
    rfl
  · rw [exists_parse_iff]
    refine ⟨?_, ?_⟩
    · intro h
      exact ⟨_, Decomposition.regular_decomposition h⟩
    · intro h
      obtain ⟨d, hd, hspell⟩ := h
      rw [← honly d hd hspell]
      rfl
  · intro sections hsections
    have hraw := exists_parse_iff.mp ⟨sections, hsections⟩
    obtain ⟨hregular, hspell⟩ := Decomposition.regular_decomposition hraw
    obtain ⟨sections', hsections', hreads⟩ := parse_reads hraw
    obtain rfl : sections = sections' := Except.ok.inj (hsections.symm.trans hsections')
    obtain ⟨margins, hlength, hblank, hwrite⟩ := exists_write hreads
    refine ⟨_, hregular, hspell, ?_, hreads, margins, hlength, hblank, hwrite.trans hspell⟩
    intro e he hspell
    rw [← honly e he hspell, e.decomposition_reading]

/-- The first opening pair is text, since a placeholder opens again before it is closed. -/
theorem parse_decomposition_reopened :
    ∃ d : Decomposition, d.Regular ∧ d.spell = "x\x7b\x7ba {{ b }} y".toList ∧
      d.Reads [.static "x", .static "\x7b\x7ba ", .dynamic "b" 5, .static " y"] := by
  have hparse : parse "x\x7b\x7ba {{ b }} y" =
      .ok [.static "x", .static "\x7b\x7ba ", .dynamic "b" 5, .static " y"] := by
    rfl
  obtain ⟨d, hregular, hspell, -, hreads, -⟩ := (parse_decomposition _).2.2 _ hparse
  exact ⟨d, hregular, hspell, hreads⟩

end Section

end Stencil
