import Stencil.Proofs.Section.Reading

/-!
# The grammar of template texts

A template text is a sequence of gaps and placeholders in turn, beginning and ending with a gap
(`Decomposition`). Not every such sequence is the one that a scan finds: which braces make up the
pairs, which pairs open a placeholder and which one closes it is laid down by a grammar
(`Decomposition.Regular`).

A decomposition is regular when the lexemes of its parts are a proper reading and are apart
(`regular_iff`). So a text has at most one regular decomposition, the one that the reading of its
lexemes gives (`Regular.reading_eq`), and it has one when this reading ends outside placeholders
(`regular_decomposition`).
-/

namespace Stencil

open Lexeme
open scoped List

/-- A text cut at its placeholders. -/
structure Decomposition where
  /-- The placeholders in their order, each as what stands between its braces, behind the gap
  before it. -/
  placed : List (List Char × List Char)
  /-- The gap behind the last placeholder. -/
  last : List Char

namespace Decomposition

/-- The gaps in their order. -/
def gaps (d : Decomposition) : List (List Char) :=
  d.placed.map Prod.fst ++ [d.last]

/-- The text that is cut. -/
def spell (d : Decomposition) : List Char :=
  (d.placed.flatMap fun p => p.1 ++ opening.chars ++ p.2 ++ closing.chars) ++ d.last

/-- **The grammar.** -/
structure Regular (d : Decomposition) : Prop where
  /-- A placeholder is opened by the last opening pair before it closes. -/
  no_opening_inside : ∀ p ∈ d.placed, ¬ opening.chars <:+: p.2
  /-- A placeholder is closed by the first closing pair. -/
  no_closing_inside : ∀ p ∈ d.placed, ¬ closing.chars <:+: p.2 ++ ['}']
  /-- The braces before a placeholder are pairs. -/
  even_braces : ∀ p ∈ d.placed, Even (trailingBraces p.1)
  /-- A gap holds no placeholder. -/
  no_placeholder_between : ∀ g ∈ d.gaps, ¬ OpensBefore (closing.chars <:+: ·) g
  /-- No placeholder is left open. -/
  no_opening_last : ¬ opening.chars <:+: d.last

/-- The lexemes of each part of a decomposition. -/
def reading (d : Decomposition) : Reading where
  placed := d.placed.map fun p => (ofChars p.1, ofChars p.2)
  gap := ofChars d.last

end Decomposition

/-- The parts of a reading, as they are written. -/
def Reading.decomposition (r : Reading) : Decomposition where
  placed := r.placed.map fun p => (p.1.flatMap chars, p.2.flatMap chars)
  last := r.gap.flatMap chars

namespace Decomposition

theorem decomposition_reading (d : Decomposition) : d.reading.decomposition = d := by
  simp [reading, Reading.decomposition, Function.comp_def, flatMap_chars_ofChars]

theorem spell_decomposition {r : Reading} (h : r.raw = none) :
    r.decomposition.spell = r.spell.flatMap chars := by
  obtain ⟨placed, gap, raw⟩ := r
  obtain rfl : raw = none := h
  simp only [spell, Reading.decomposition, Reading.spell, Reading.spellPlaced, Reading.pending,
    List.flatMap_append, List.flatMap_assoc, List.flatMap_map, List.flatMap_cons,
    List.flatMap_nil, List.append_nil, List.append_assoc]

/-! ### Lexemes apart, part by part -/

theorem apart_opening_right {l : Lexeme} : Apart l opening ↔ l ≠ char '{' :=
  apart_iff_ne_char (Or.inl rfl) rfl

theorem apart_closing_right {l : Lexeme} : Apart l closing ↔ l ≠ char '}' :=
  apart_iff_ne_char (Or.inr rfl) rfl

/-- Lexemes can be followed by another one if the last of them stands apart from it. -/
theorem isChain_append_cons_iff {l : Lexeme} {ls rest : List Lexeme} {c : Char}
    (hl : ∀ x, Apart x l ↔ x ≠ char c) (hfree : ∀ y, Apart l y) :
    (ls ++ l :: rest).IsChain Apart ↔
      (ls.IsChain Apart ∧ ls.getLast? ≠ some (char c)) ∧ rest.IsChain Apart := by
  -- what follows `l` is free, so all that is asked is that the last lexeme before it is apart
  rw [List.isChain_append, List.isChain_cons]
  refine ⟨?_, ?_⟩
  · intro h
    obtain ⟨hls, ⟨-, hrest⟩, happart⟩ := h
    refine ⟨⟨hls, fun hlast => ?_⟩, hrest⟩
    exact (hl _).mp (happart _ hlast l rfl) rfl
  · intro h
    obtain ⟨⟨hls, hlast⟩, hrest⟩ := h
    refine ⟨hls, ⟨fun y _ => hfree y, hrest⟩, ?_⟩
    rintro x hx y ⟨⟩
    refine (hl x).mpr ?_
    rintro rfl
    exact hlast hx

/-- A gap, a placeholder and what follows can be read one by one if neither the gap nor the
placeholder ends with a single brace that would pair up with the next one. -/
theorem isChain_placed_iff {gap raw rest : List Lexeme} :
    (gap ++ opening :: (raw ++ closing :: rest)).IsChain Apart ↔
      (gap.IsChain Apart ∧ gap.getLast? ≠ some (char '{')) ∧
        (raw.IsChain Apart ∧ raw.getLast? ≠ some (char '}')) ∧ rest.IsChain Apart := by
  rw [isChain_append_cons_iff (fun _ => apart_opening_right) apart_opening,
    isChain_append_cons_iff (fun _ => apart_closing_right) apart_closing]

/-- The lexemes of a reading are apart when those of its parts are. -/
theorem isChain_spell_iff {r : Reading} (h : r.raw = none) :
    r.spell.IsChain Apart ↔
      (∀ p ∈ r.placed, (p.1.IsChain Apart ∧ p.1.getLast? ≠ some (char '{')) ∧
        p.2.IsChain Apart ∧ p.2.getLast? ≠ some (char '}')) ∧ r.gap.IsChain Apart := by
  obtain ⟨placed, gap, raw⟩ := r
  obtain rfl : raw = none := h
  induction placed with
  | nil => simp [Reading.spell, Reading.spellPlaced, Reading.pending]
  | cons p rest ih =>
    -- the first placeholder with its gap, then a shorter reading
    have hspell : Reading.spell ⟨p :: rest, gap, none⟩
        = p.1 ++ opening :: (p.2 ++ closing :: Reading.spell ⟨rest, gap, none⟩) := by
      simp [Reading.spell, Reading.spellPlaced, Reading.pending]
    rw [hspell, isChain_placed_iff, ih, List.forall_mem_cons]
    simp only [and_assoc]

/-! ### The grammar in terms of lexemes -/

/-- A placeholder without a closing pair cannot be closed earlier. -/
theorem closing_notMem_iff {cs : List Char} :
    closing ∉ ofChars cs ∧ (ofChars cs).getLast? ≠ some (char '}') ↔
      ¬ closing.chars <:+: cs ++ ['}'] := by
  refine ⟨?_, ?_⟩
  · rintro ⟨hclose, hlast⟩ hinfix
    -- one more brace is read as a lexeme of its own
    have hchain : (ofChars cs ++ char '}' :: []).IsChain Apart := by
      refine List.isChain_append.mpr ⟨isChain_ofChars cs, List.isChain_singleton _, ?_⟩
      rintro x hx y ⟨⟩
      exact apart_closing_right.mpr fun heq => hlast (heq ▸ hx)
    have hread : ofChars (cs ++ ['}']) = ofChars cs ++ [char '}'] := by
      calc ofChars (cs ++ ['}'])
          = ofChars ((ofChars cs ++ [char '}']).flatMap chars) := by
            rw [List.flatMap_append, flatMap_chars_ofChars]
            rfl
        _ = ofChars cs ++ [char '}'] := ofChars_flatMap_chars hchain
    rw [← closing_mem_ofChars, hread] at hinfix
    simp [hclose] at hinfix
  · intro hinfix
    refine ⟨fun hclose => ?_, fun hlast => ?_⟩
    · exact hinfix (List.infix_append_of_infix_left (closing_mem_ofChars.mp hclose))
    · -- a brace at the end makes a pair with the one put behind it
      obtain ⟨init, heq⟩ := List.getLast?_eq_some_iff.mp hlast
      have hcs : cs = init.flatMap chars ++ ['}'] := by
        calc cs = (ofChars cs).flatMap chars := (flatMap_chars_ofChars cs).symm
          _ = init.flatMap chars ++ ['}'] := by
            rw [heq, List.flatMap_append, List.flatMap_singleton, chars]
      refine hinfix ⟨init.flatMap chars, [], ?_⟩
      rw [hcs, List.append_nil, List.append_assoc]
      rfl

theorem getLast?_ofChars_ne_iff {cs : List Char} :
    (ofChars cs).getLast? ≠ some (char '{') ↔ Even (trailingBraces cs) := by
  rw [getLast?_ne_iff (isChain_ofChars cs), flatMap_chars_ofChars]

/-- A decomposition is regular exactly when the lexemes of its parts are a proper reading and stay
the same when the parts are put together. -/
theorem regular_iff {d : Decomposition} :
    d.Regular ↔ d.reading.Proper ∧ d.reading.spell.IsChain Apart := by
  have hpairs : ∀ {P : List Lexeme × List Lexeme → Prop},
      (∀ p ∈ d.reading.placed, P p) ↔ ∀ p ∈ d.placed, P (ofChars p.1, ofChars p.2) :=
    List.forall_mem_map
  rw [isChain_spell_iff rfl, hpairs]
  refine ⟨?_, ?_⟩
  · intro h
    have hlast : opening ∉ ofChars d.last := mt opening_mem_ofChars.mp h.no_opening_last
    -- field by field: the form of the reading, then the seams between its parts
    refine ⟨⟨?_, ?_, ?_, fun _ => hlast, ?_⟩, ?_, isChain_ofChars d.last⟩
    · exact hpairs.mpr fun p hp => ⟨mt opening_mem_ofChars.mp (h.no_opening_inside p hp),
        (closing_notMem_iff.mpr (h.no_closing_inside p hp)).1⟩
    · refine hpairs.mpr fun p hp => mt opening_closing_sublist_ofChars.mp ?_
      exact h.no_placeholder_between p.1 (List.mem_append_left _ (List.mem_map_of_mem hp))
    · exact Reading.not_pair_sublist_of_notMem hlast
    · exact fun raw hraw => absurd hraw (Option.some_ne_none raw).symm
    · exact fun p hp => ⟨⟨isChain_ofChars p.1, getLast?_ofChars_ne_iff.mpr (h.even_braces p hp)⟩,
        isChain_ofChars p.2, (closing_notMem_iff.mpr (h.no_closing_inside p hp)).2⟩
  · intro h
    obtain ⟨h, hchain, -⟩ := h
    -- conversely each rule of the grammar is one of these facts
    have hplain := hpairs.mp h.placeholder
    have hlast : ¬ opening.chars <:+: d.last := mt opening_mem_ofChars.mpr (h.no_opening rfl)
    refine ⟨?_, ?_, ?_, ?_, hlast⟩
    · exact fun p hp => mt opening_mem_ofChars.mpr (hplain p hp).1
    · exact fun p hp => closing_notMem_iff.mp ⟨(hplain p hp).2, (hchain p hp).2.2⟩
    · exact fun p hp => getLast?_ofChars_ne_iff.mp (hchain p hp).1.2
    · intro g hg
      rcases List.mem_append.mp hg with hg | hg
      · obtain ⟨p, hp, rfl⟩ := List.mem_map.mp hg
        exact mt opening_closing_sublist_ofChars.mpr (hpairs.mp h.gap_placed p hp)
      · obtain rfl : g = d.last := List.mem_singleton.mp hg
        exact mt opening_closing_sublist_ofChars.mpr h.gap_current

/-! ### One decomposition -/

theorem spell_reading (d : Decomposition) : d.reading.spell.flatMap chars = d.spell := by
  rw [← spell_decomposition (r := d.reading) rfl, decomposition_reading]

/-- **The decomposition of a text is that of its reading**: there is no other regular one. -/
theorem Regular.reading_eq {d : Decomposition} (h : d.Regular) :
    Reading.ofLexemes (ofChars d.spell) = d.reading := by
  obtain ⟨hproper, hchain⟩ := regular_iff.mp h
  -- the lexemes of the text are those of the parts, and a proper reading of them is the only one
  rw [← spell_reading, ofChars_flatMap_chars hchain]
  exact Reading.ofLexemes_spell hproper rfl

/-- A reading that ends outside placeholders gives the lexemes of each part of the text. -/
theorem reading_decomposition {cs : List Char}
    (hraw : (Reading.ofLexemes (ofChars cs)).raw = none) :
    (Reading.ofLexemes (ofChars cs)).decomposition.reading = Reading.ofLexemes (ofChars cs) := by
  -- the lexemes of the text are apart, so those of each part are
  have hchain := isChain_ofChars cs
  rw [← Reading.spell_ofLexemes (ofChars cs), isChain_spell_iff hraw] at hchain
  generalize Reading.ofLexemes (ofChars cs) = r at hraw hchain ⊢
  obtain ⟨placed, gap, raw⟩ := r
  obtain rfl : raw = none := hraw
  simp only [reading, Reading.decomposition, List.map_map, Reading.mk.injEq, and_true]
  refine ⟨?_, ofChars_flatMap_chars hchain.2⟩
  rw [List.map_congr_left (g := id), List.map_id]
  intro p hp
  obtain ⟨⟨hgap, -⟩, hraw, -⟩ := hchain.1 p hp
  exact Prod.ext (ofChars_flatMap_chars hgap) (ofChars_flatMap_chars hraw)

/-- The decomposition that a reading gives is regular and cuts the text. -/
theorem regular_decomposition {cs : List Char}
    (hraw : (Reading.ofLexemes (ofChars cs)).raw = none) :
    (Reading.ofLexemes (ofChars cs)).decomposition.Regular ∧
      (Reading.ofLexemes (ofChars cs)).decomposition.spell = cs := by
  refine ⟨?_, ?_⟩
  · rw [regular_iff, reading_decomposition hraw, Reading.spell_ofLexemes]
    exact ⟨Reading.proper_ofLexemes _, isChain_ofChars cs⟩
  · rw [spell_decomposition hraw, Reading.spell_ofLexemes, flatMap_chars_ofChars]

end Decomposition

end Stencil
