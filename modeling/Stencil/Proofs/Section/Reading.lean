import Stencil.Proofs.Section.Lexeme

/-!
# Readings of lexemes

A **reading** (`Reading`) is what a scan knows of the lexemes that it has taken in: the placeholders
so far, each with the gap before it, the gap since then, and what was read of a placeholder that is
open. Where a scan keeps sections, a reading keeps the lexemes they come from.

A reading loses nothing (`spell_ofLexemes`), and what it finds is of a certain form
(`Reading.Proper`): a placeholder holds no pair, and no gap has an opening pair before a closing
one. The form leaves no choice: the lexemes of a proper reading are read as it says
(`ofLexemes_spell`).

A reading ends outside placeholders exactly when there is no opening pair, or the last one has a
closing pair behind it (`raw_ofLexemes_eq_none_iff`).
-/

namespace Stencil

open Lexeme
open scoped List

/-- What was found in the lexemes read so far. -/
structure Reading where
  /-- The lexemes of the placeholders that are closed, each behind those of the gap before it. -/
  placed : List (List Lexeme × List Lexeme) := []
  /-- The lexemes since the last placeholder that is closed, but for a placeholder that is open. -/
  gap : List Lexeme := []
  /-- The lexemes of the placeholder that is open. -/
  raw : Option (List Lexeme) := none

namespace Reading

/-- The lexemes since the last placeholder that is closed. -/
def pending (r : Reading) : List Lexeme :=
  match r.raw with
  | none => r.gap
  | some raw => r.gap ++ opening :: raw

/-- Takes in one lexeme. -/
def step (r : Reading) : Lexeme → Reading
  | .opening => { r with gap := r.pending, raw := some [] }
  | .closing =>
    match r.raw with
    | none => { r with gap := r.gap ++ [closing] }
    | some raw => { placed := r.placed ++ [(r.gap, raw)] }
  | .char c =>
    match r.raw with
    | none => { r with gap := r.gap ++ [char c] }
    | some raw => { r with raw := some (raw ++ [char c]) }

/-- Reads lexemes to the end. -/
def ofLexemes (ls : List Lexeme) : Reading :=
  ls.foldl step {}

/-- The lexemes of placeholders with the gaps before them. -/
def spellPlaced (placed : List (List Lexeme × List Lexeme)) : List Lexeme :=
  placed.flatMap fun p => p.1 ++ opening :: (p.2 ++ [closing])

/-- The lexemes of a reading. -/
def spell (r : Reading) : List Lexeme :=
  spellPlaced r.placed ++ r.pending

/-- The form of what is found. -/
structure Proper (r : Reading) : Prop where
  /-- A placeholder holds no pair. -/
  placeholder : ∀ p ∈ r.placed, opening ∉ p.2 ∧ closing ∉ p.2
  /-- In a gap no opening pair stands before a closing one. -/
  gap_placed : ∀ p ∈ r.placed, ¬ [opening, closing] <+ p.1
  gap_current : ¬ [opening, closing] <+ r.gap
  /-- Without a placeholder that is open there is no opening pair to wait for. -/
  no_opening : r.raw = none → opening ∉ r.gap
  raw_plain : ∀ raw, r.raw = some raw → opening ∉ raw ∧ closing ∉ raw

/-! ### Every reading is proper and spells what was read -/

theorem spell_step (r : Reading) (l : Lexeme) : (r.step l).spell = r.spell ++ [l] := by
  obtain ⟨placed, gap, raw⟩ := r
  -- an opening pair moves what is pending into the gap, a closing one into the placeholders
  cases l <;> cases raw <;> simp [step, spell, spellPlaced, pending]

/-- **Nothing is lost**: a reading spells the lexemes that it has taken in. -/
theorem spell_ofLexemes (ls : List Lexeme) : (ofLexemes ls).spell = ls := by
  induction ls using List.reverseRecOn with
  | nil => rfl
  | append_singleton rest l ih =>
    rw [ofLexemes, List.foldl_append, List.foldl_cons, List.foldl_nil, spell_step]
    exact congrArg (· ++ [l]) ih

/-- Lexemes without a closing pair do not complete what stands before them. -/
theorem not_pair_sublist_append {as bs : List Lexeme} (has : ¬ [opening, closing] <+ as)
    (hbs : closing ∉ bs) : ¬ [opening, closing] <+ as ++ bs := by
  intro hsub
  obtain ⟨front, back, heq, hfront, hback⟩ := List.sublist_append_iff.mp hsub
  rcases List.eq_nil_or_concat back with rfl | ⟨init, last, rfl⟩
  · rw [List.append_nil] at heq
    exact has (heq ▸ hfront)
  · -- the last lexeme of the pair is taken from `bs`
    have hlast : closing = last := by
      have := congrArg List.getLast? heq
      simpa using this
    exact hbs (hback.subset (by simp [hlast]))

theorem not_pair_sublist_of_notMem {ls : List Lexeme} (h : opening ∉ ls) :
    ¬ [opening, closing] <+ ls :=
  fun hsub => h (hsub.subset List.mem_cons_self)

theorem Proper.pending {r : Reading} (h : r.Proper) : ¬ [opening, closing] <+ r.pending := by
  obtain ⟨placed, gap, raw⟩ := r
  cases raw with
  | none => exact h.gap_current
  | some raw =>
    -- what is read of a placeholder has no closing pair yet
    refine not_pair_sublist_append h.gap_current ?_
    simpa using (h.raw_plain raw rfl).2

theorem Proper.step {r : Reading} (h : r.Proper) (l : Lexeme) : (r.step l).Proper := by
  have hpending := h.pending
  obtain ⟨placed, gap, raw⟩ := r
  cases l with
  | opening =>
    -- an opening that is given up becomes part of the gap
    refine ⟨h.placeholder, h.gap_placed, hpending, fun hraw => ?_, fun w hw => ?_⟩
    · exact absurd hraw (Option.some_ne_none _)
    · obtain rfl : [] = w := Option.some.inj hw
      simp
  | closing =>
    cases raw with
    | none =>
      -- a stray closing pair is text, since there is no opening pair in the gap
      have hopen : opening ∉ gap ++ [closing] := by simpa using h.no_opening rfl
      exact ⟨h.placeholder, h.gap_placed, not_pair_sublist_of_notMem hopen, fun _ => hopen,
        fun w hw => absurd hw (Option.some_ne_none w).symm⟩
    | some raw =>
      -- the placeholder is complete, and an empty gap begins
      refine ⟨fun p hp => ?_, fun p hp => ?_, ?_, fun _ => ?_, fun w hw => ?_⟩
      · rcases List.mem_append.mp hp with hp | hp
        · exact h.placeholder p hp
        · obtain rfl : p = (gap, raw) := List.mem_singleton.mp hp
          exact h.raw_plain raw rfl
      · rcases List.mem_append.mp hp with hp | hp
        · exact h.gap_placed p hp
        · obtain rfl : p = (gap, raw) := List.mem_singleton.mp hp
          exact h.gap_current
      · exact not_pair_sublist_of_notMem List.not_mem_nil
      · exact List.not_mem_nil
      · exact absurd hw (Option.some_ne_none w).symm
  | char c =>
    cases raw with
    | none =>
      have hopen : opening ∉ gap ++ [char c] := by simpa using h.no_opening rfl
      exact ⟨h.placeholder, h.gap_placed, not_pair_sublist_of_notMem hopen, fun _ => hopen,
        fun w hw => absurd hw (Option.some_ne_none w).symm⟩
    | some raw =>
      refine ⟨h.placeholder, h.gap_placed, h.gap_current, fun hraw => ?_, fun w hw => ?_⟩
      · exact absurd hraw (Option.some_ne_none _)
      · obtain rfl : raw ++ [char c] = w := Option.some.inj hw
        simpa using h.raw_plain raw rfl

theorem proper_ofLexemes (ls : List Lexeme) : (ofLexemes ls).Proper := by
  induction ls using List.reverseRecOn with
  | nil =>
    refine ⟨?_, ?_, ?_, ?_, ?_⟩ <;> simp [ofLexemes]
  | append_singleton rest l ih =>
    rw [ofLexemes, List.foldl_append]
    exact ih.step l

/-! ### Proper readings are read as they say -/

/-- A gap is taken in as it stands, whatever opening pairs are given up in it. -/
theorem foldl_step_gap {ls : List Lexeme} (h : ¬ [opening, closing] <+ ls) {r : Reading}
    (hraw : r.raw ≠ none → closing ∉ ls) :
    (ls.foldl step r).placed = r.placed ∧ (ls.foldl step r).pending = r.pending ++ ls := by
  induction ls generalizing r with
  | nil => exact ⟨rfl, (List.append_nil _).symm⟩
  | cons l rest ih =>
    have hrest : ¬ [opening, closing] <+ rest := fun hsub => h (hsub.cons l)
    -- no lexeme of the gap closes a placeholder: it would be behind an opening pair of the gap, or
    -- behind the one that was open before
    have hstep : (r.step l).placed = r.placed ∧ (r.step l).pending = r.pending ++ [l] ∧
        ((r.step l).raw ≠ none → closing ∉ rest) := by
      obtain ⟨placed, gap, raw⟩ := r
      cases l with
      | opening =>
        refine ⟨rfl, rfl, fun _ hmem => ?_⟩
        exact h ((List.singleton_sublist.mpr hmem).cons_cons opening)
      | closing =>
        cases raw with
        | none => exact ⟨rfl, rfl, fun hne => absurd rfl hne⟩
        | some raw => exact absurd List.mem_cons_self (hraw (Option.some_ne_none raw))
      | char c =>
        cases raw with
        | none => exact ⟨rfl, rfl, fun hne => absurd rfl hne⟩
        | some raw =>
          refine ⟨rfl, by simp [step, pending], fun _ hmem => ?_⟩
          exact hraw (Option.some_ne_none raw) (List.mem_cons_of_mem _ hmem)
    obtain ⟨hplaced, hpending, hopen⟩ := hstep
    obtain ⟨hplaced', hpending'⟩ := ih hrest hopen
    refine ⟨hplaced'.trans hplaced, ?_⟩
    rw [List.foldl_cons, hpending', hpending, List.append_assoc, List.singleton_append]

theorem foldl_step_raw {ls : List Lexeme} (hopen : opening ∉ ls) (hclose : closing ∉ ls)
    (placed : List (List Lexeme × List Lexeme)) (gap raw : List Lexeme) :
    ls.foldl step ⟨placed, gap, some raw⟩ = ⟨placed, gap, some (raw ++ ls)⟩ := by
  induction ls generalizing raw with
  | nil => rw [List.foldl_nil, List.append_nil]
  | cons l rest ih =>
    rw [List.mem_cons, not_or] at hopen hclose
    cases l with
    | opening => exact absurd rfl hopen.1
    | closing => exact absurd rfl hclose.1
    | char c =>
      rw [List.foldl_cons, step, ih hopen.2 hclose.2, List.append_assoc, List.singleton_append]

theorem foldl_step_last {ls : List Lexeme} (hopen : opening ∉ ls)
    (placed : List (List Lexeme × List Lexeme)) (gap : List Lexeme) :
    ls.foldl step ⟨placed, gap, none⟩ = ⟨placed, gap ++ ls, none⟩ := by
  induction ls generalizing gap with
  | nil => rw [List.foldl_nil, List.append_nil]
  | cons l rest ih =>
    rw [List.mem_cons, not_or] at hopen
    cases l with
    | opening => exact absurd rfl hopen.1
    | closing | char c =>
      rw [List.foldl_cons, step, ih hopen.2, List.append_assoc, List.singleton_append]

/-- Placeholders with the gaps before them are found one after another. -/
theorem foldl_step_spellPlaced {placed : List (List Lexeme × List Lexeme)}
    (hraw : ∀ p ∈ placed, opening ∉ p.2 ∧ closing ∉ p.2)
    (hgap : ∀ p ∈ placed, ¬ [opening, closing] <+ p.1)
    (found : List (List Lexeme × List Lexeme)) :
    (spellPlaced placed).foldl step ⟨found, [], none⟩ = ⟨found ++ placed, [], none⟩ := by
  induction placed generalizing found with
  | nil => rw [List.append_nil]; rfl
  | cons p rest ih =>
    obtain ⟨gap, raw⟩ := p
    obtain ⟨hopen, hclose⟩ := hraw _ List.mem_cons_self
    -- the gap is taken in, its end is an opening pair, and the placeholder goes on to its closing
    obtain ⟨hplaced, hpending⟩ := foldl_step_gap (hgap _ List.mem_cons_self)
      (fun hne => absurd rfl hne : (⟨found, [], none⟩ : Reading).raw ≠ none → closing ∉ gap)
    have hopened : (gap.foldl step ⟨found, [], none⟩).step opening = ⟨found, gap, some []⟩ := by
      rw [step, hplaced, hpending]
      rfl
    have hspell : spellPlaced ((gap, raw) :: rest)
        = gap ++ opening :: (raw ++ closing :: spellPlaced rest) := by
      simp [spellPlaced]
    rw [hspell, List.foldl_append, List.foldl_cons, hopened, List.foldl_append,
      foldl_step_raw hopen hclose, List.foldl_cons, List.nil_append]
    change (spellPlaced rest).foldl step ⟨found ++ [(gap, raw)], [], none⟩ = _
    rw [ih (fun p hp => hraw p (List.mem_cons_of_mem _ hp))
      (fun p hp => hgap p (List.mem_cons_of_mem _ hp)), List.append_assoc, List.singleton_append]

/-- **No choice**: the lexemes of a proper reading are read as it says. -/
theorem ofLexemes_spell {r : Reading} (h : r.Proper) (hraw : r.raw = none) :
    ofLexemes r.spell = r := by
  obtain ⟨placed, gap, raw⟩ := r
  obtain rfl : raw = none := hraw
  rw [ofLexemes, spell, List.foldl_append,
    foldl_step_spellPlaced h.placeholder h.gap_placed, List.nil_append]
  exact foldl_step_last (h.no_opening rfl) placed []

/-! ### Readings that end outside placeholders -/

theorem exists_last_opening {ls : List Lexeme} (h : opening ∈ ls) :
    ∃ before behind, ls = before ++ opening :: behind ∧ opening ∉ behind := by
  obtain ⟨front, back, heq, hfront⟩ := List.eq_append_cons_of_mem (List.mem_reverse.mpr h)
  refine ⟨back.reverse, front.reverse, ?_, by simpa using hfront⟩
  rw [← ls.reverse_reverse, heq, List.reverse_append, List.reverse_cons, List.append_assoc,
    List.singleton_append]

theorem lastClosed_concat {ls : List Lexeme} {l : Lexeme} :
    LastClosed (ls ++ [l]) ↔ l ≠ opening ∧ (LastClosed ls ∨ l = closing ∧ opening ∈ ls) := by
  refine ⟨?_, ?_⟩
  · intro h
    obtain ⟨before, behind, heq, hopen, hclose⟩ := h
    rcases List.eq_nil_or_concat behind with rfl | ⟨init, last, rfl⟩
    · exact absurd hclose List.not_mem_nil
    · -- the last lexeme is behind the last opening pair
      rw [List.concat_eq_append] at heq hopen hclose
      rw [← List.cons_append, ← List.append_assoc] at heq
      obtain ⟨rfl, hl⟩ := List.append_inj' heq rfl
      obtain rfl : l = last := List.singleton_inj.mp hl
      rw [List.mem_append, List.mem_singleton, not_or] at hopen
      rw [List.mem_append, List.mem_singleton] at hclose
      refine ⟨Ne.symm hopen.2, ?_⟩
      rcases hclose with hclose | rfl
      · exact Or.inl ⟨before, init, rfl, hopen.1, hclose⟩
      · exact Or.inr ⟨rfl, by simp⟩
  · intro h
    obtain ⟨hl, ⟨before, behind, rfl, hopen, hclose⟩ | ⟨rfl, hmem⟩⟩ := h
    · refine ⟨before, behind ++ [l], by simp, ?_, List.mem_append_left _ hclose⟩
      simpa using ⟨hopen, Ne.symm hl⟩
    · obtain ⟨before, behind, rfl, hopen⟩ := exists_last_opening hmem
      exact ⟨before, behind ++ [closing], by simp, by simpa using hopen, by simp⟩

/-- **When a reading is complete**: it ends outside placeholders exactly when there is no opening
pair, or the last one has a closing pair behind it. -/
theorem raw_ofLexemes_eq_none_iff (ls : List Lexeme) :
    (ofLexemes ls).raw = none ↔ opening ∉ ls ∨ LastClosed ls := by
  induction ls using List.reverseRecOn with
  | nil => simp [ofLexemes]
  | append_singleton rest l ih =>
    rw [ofLexemes, List.foldl_append, List.foldl_cons, List.foldl_nil, lastClosed_concat,
      List.mem_append, List.mem_singleton]
    change ((ofLexemes rest).step l).raw = none ↔ _
    generalize ofLexemes rest = r at ih
    obtain ⟨placed, gap, raw⟩ := r
    cases l with
    | opening =>
      -- nothing is behind this opening pair
      simp [step]
    | closing =>
      -- the last opening pair, if there is one, is closed now
      have hraw : (step ⟨placed, gap, raw⟩ closing).raw = none := by cases raw <;> rfl
      refine iff_of_true hraw ?_
      by_cases hmem : opening ∈ rest
      · exact Or.inr ⟨Lexeme.noConfusion, Or.inr ⟨rfl, hmem⟩⟩
      · exact Or.inl (by simp [hmem])
    | char c => cases raw <;> simpa [step] using ih

end Reading

end Stencil
