import Mathlib.Algebra.Group.Nat.Even
import Mathlib.Data.List.Chain
import Stencil.Section.Lexeme

/-!
# Lexemes and the braces of a text

Lexemes that come from a text are **apart**: a single brace never stands before an equal brace, with
which it would have made a pair (`isChain_ofChars`). Conversely lexemes that are apart are what is
read from the characters they are written with (`ofChars_flatMap_chars`), so a text can be cut
between any two lexemes and its parts be read alone.

This is what ties the lexemes of a text to its characters.

* A pair is among the lexemes exactly when it is somewhere in the text (`pair_mem_ofChars`),
  although a run of braces holds pairs that are not read.
* An opening pair is read before a closing one exactly when one stands before one in the text
  (`opening_closing_sublist_ofChars`).
* The last opening pair that is read has a closing one behind it exactly when the last one that is
  written has (`lastClosed_ofChars`).
* The last lexeme is a single brace exactly when the text ends with an odd number of them
  (`getLast?_ne_iff`).
-/

namespace Stencil.Lexeme

open scoped List

/-- Two lexemes that can stand side by side without being read otherwise. -/
def Apart (a b : Lexeme) : Prop :=
  ∀ c, a = char c → c = '{' ∨ c = '}' → b.chars.head? ≠ some c

@[simp] theorem apart_opening (b : Lexeme) : Apart opening b := by
  intro c h
  cases h

@[simp] theorem apart_closing (b : Lexeme) : Apart closing b := by
  intro c h
  cases h

@[simp] theorem apart_char {c : Char} {b : Lexeme} :
    Apart (char c) b ↔ (c = '{' ∨ c = '}' → b.chars.head? ≠ some c) := by
  refine ⟨?_, ?_⟩
  · intro h
    exact h c rfl
  · intro h d hd
    obtain rfl : c = d := Lexeme.char.inj hd
    exact h

/-- A lexeme that starts with a brace can follow anything but that brace alone. -/
theorem apart_iff_ne_char {l b : Lexeme} {c : Char} (hc : c = '{' ∨ c = '}')
    (hb : b.chars.head? = some c) : Apart l b ↔ l ≠ char c := by
  cases l with
  | opening | closing => simp
  | char d =>
    rw [apart_char, hb]
    refine ⟨fun h heq => ?_, fun h _ heq => ?_⟩
    · obtain rfl : d = c := Lexeme.char.inj heq
      exact h hc rfl
    · exact h (congrArg char (Option.some.inj heq).symm)

/-! ### Reading a text and writing it again -/

@[simp] theorem ofChars_opening (rest : List Char) :
    ofChars ('{' :: '{' :: rest) = opening :: ofChars rest := by
  rw [ofChars]

@[simp] theorem ofChars_closing (rest : List Char) :
    ofChars ('}' :: '}' :: rest) = closing :: ofChars rest := by
  rw [ofChars]

/-- A character that is not the first of a pair is a lexeme of its own. -/
theorem ofChars_cons {c : Char} {rest : List Char}
    (h : c = '{' ∨ c = '}' → rest.head? ≠ some c) :
    ofChars (c :: rest) = char c :: ofChars rest := by
  rw [ofChars]
  -- neither of the two patterns for pairs matches
  · rintro tail rfl rfl
    exact h (Or.inl rfl) rfl
  · rintro tail rfl rfl
    exact h (Or.inr rfl) rfl

/-- The first lexeme of a text starts with the first character of the text. -/
theorem head?_flatMap_chars (ls : List Lexeme) :
    (ls.flatMap chars).head? = ls.head?.bind fun l => l.chars.head? := by
  cases ls with
  | nil => rfl
  | cons l rest => cases l <;> rfl

theorem isChain_ofChars (cs : List Char) : (ofChars cs).IsChain Apart := by
  fun_induction ofChars cs with
  | case1 rest ih => exact List.isChain_cons.mpr ⟨fun b _ => apart_opening b, ih⟩
  | case2 rest ih => exact List.isChain_cons.mpr ⟨fun b _ => apart_closing b, ih⟩
  | case3 c rest hopen hclose ih =>
    refine List.isChain_cons.mpr ⟨fun b hb => apart_char.mpr ?_, ih⟩
    -- the lexeme that follows starts with the character that follows
    have hhead : rest.head? = b.chars.head? := by
      conv_lhs => rw [← flatMap_chars_ofChars rest, head?_flatMap_chars, Option.mem_def.mp hb]
      rfl
    -- a brace with an equal one behind it would have been read as a pair
    rw [← hhead]
    rintro (rfl | rfl) hc
    · obtain ⟨tail, rfl⟩ := List.head?_eq_some_iff.mp hc
      exact hopen tail rfl rfl
    · obtain ⟨tail, rfl⟩ := List.head?_eq_some_iff.mp hc
      exact hclose tail rfl rfl
  | case4 => exact List.IsChain.nil

/-- **Lexemes apart are read as they are written.** -/
theorem ofChars_flatMap_chars {ls : List Lexeme} (h : ls.IsChain Apart) :
    ofChars (ls.flatMap chars) = ls := by
  induction ls with
  | nil => exact ofChars_nil
  | cons l rest ih =>
    rw [List.isChain_cons] at h
    cases l with
    | opening => simp [chars, ih h.2]
    | closing => simp [chars, ih h.2]
    | char c =>
      -- what follows in the text is the first character of the lexeme that follows
      have hnext : c = '{' ∨ c = '}' → (rest.flatMap chars).head? ≠ some c := by
        intro hc hhead
        rw [head?_flatMap_chars, Option.bind_eq_some_iff] at hhead
        obtain ⟨b, hb, hhead⟩ := hhead
        exact apart_char.mp (h.1 b hb) hc hhead
      rw [List.flatMap_cons, chars, List.singleton_append, ofChars_cons hnext, ih h.2]

/-! ### Pairs in the text -/

/-- **Pairs are read where they are written**: a pair is among the lexemes of a text exactly when it
is somewhere in the text. -/
theorem pair_mem_ofChars {l : Lexeme} (hpair : ∀ c, l ≠ char c) {cs : List Char} :
    l ∈ ofChars cs ↔ l.chars <:+: cs := by
  fun_induction ofChars cs with
  | case1 rest ih =>
    cases l with
    | opening => simpa using ⟨[], rest, rfl⟩
    | closing => simp [ih, chars, List.infix_cons_iff]
    | char c => exact absurd rfl (hpair c)
  | case2 rest ih =>
    cases l with
    | opening => simp [ih, chars, List.infix_cons_iff]
    | closing => simpa using ⟨[], rest, rfl⟩
    | char c => exact absurd rfl (hpair c)
  | case3 c rest hopen hclose ih =>
    -- a pair that began with `c` would have been read here
    have hprefix : ¬ l.chars <+: c :: rest := by
      rintro ⟨tail, heq⟩
      cases l with
      | opening =>
        obtain ⟨rfl, rfl⟩ := List.cons.inj heq
        exact hopen tail rfl rfl
      | closing =>
        obtain ⟨rfl, rfl⟩ := List.cons.inj heq
        exact hclose tail rfl rfl
      | char d => exact hpair d rfl
    rw [List.infix_cons_iff, or_iff_right hprefix, List.mem_cons, or_iff_right (hpair c), ih]
  | case4 =>
    cases l with
    | opening | closing => simp [chars]
    | char c => exact absurd rfl (hpair c)

theorem opening_mem_ofChars {cs : List Char} : opening ∈ ofChars cs ↔ opening.chars <:+: cs :=
  pair_mem_ofChars fun _ => Lexeme.noConfusion

theorem closing_mem_ofChars {cs : List Char} : closing ∈ ofChars cs ↔ closing.chars <:+: cs :=
  pair_mem_ofChars fun _ => Lexeme.noConfusion

/-! ### Opening pairs and what stands behind them -/

/-- Somewhere in a text stands an opening pair with characters of some kind behind it. -/
def OpensBefore (P : List Char → Prop) (cs : List Char) : Prop :=
  ∃ before behind, cs = before ++ opening.chars ++ behind ∧ P behind

theorem not_opensBefore_nil {P : List Char → Prop} : ¬ OpensBefore P [] := by
  rintro ⟨before, behind, heq, -⟩
  simp [chars] at heq

theorem opensBefore_cons {P : List Char → Prop} {c : Char} {rest : List Char} :
    OpensBefore P (c :: rest) ↔
      (c = '{' ∧ ∃ behind, rest = '{' :: behind ∧ P behind) ∨ OpensBefore P rest := by
  refine ⟨?_, ?_⟩
  · intro h
    obtain ⟨before, behind, heq, h⟩ := h
    rw [List.append_assoc, List.cons_eq_append_iff] at heq
    -- the pair is at the start, or all of it is in the rest
    rcases heq with ⟨rfl, heq⟩ | ⟨before', rfl, heq⟩
    · obtain ⟨rfl, rfl⟩ := List.cons.inj heq.symm
      exact Or.inl ⟨rfl, behind, rfl, h⟩
    · exact Or.inr ⟨before', behind, by rw [heq, List.append_assoc], h⟩
  · rintro (⟨rfl, behind, rfl, h⟩ | ⟨before, behind, rfl, h⟩)
    · exact ⟨[], behind, rfl, h⟩
    · exact ⟨c :: before, behind, rfl, h⟩

/-- An opening pair is read before a closing one exactly when one is written before one. -/
theorem opening_closing_sublist_ofChars {cs : List Char} :
    [opening, closing] <+ ofChars cs ↔ OpensBefore (closing.chars <:+: ·) cs := by
  fun_induction ofChars cs with
  | case1 rest ih =>
    -- the pair at the start is before everything else, so only the closing pair matters
    rw [List.cons_sublist_cons, List.singleton_sublist, closing_mem_ofChars, opensBefore_cons,
      opensBefore_cons]
    refine ⟨?_, ?_⟩
    · intro h
      exact Or.inl ⟨rfl, rest, rfl, h⟩
    · rintro (⟨-, behind, heq, h⟩ | ⟨-, behind, rfl, h⟩ | ⟨before, behind, rfl, h⟩)
      · rwa [(List.cons.inj heq).2]
      · exact List.infix_cons h
      · exact h.trans (List.infix_append_right)
  | case2 rest ih =>
    rw [opensBefore_cons, opensBefore_cons, ← ih]
    simp [List.sublist_cons_iff]
  | case3 c rest hopen hclose ih =>
    rw [opensBefore_cons, ← ih]
    refine ⟨?_, ?_⟩
    · intro h
      exact Or.inr (by simpa [List.sublist_cons_iff] using h)
    · -- no pair starts with `c`, so the one that is written is in the rest
      rintro (⟨rfl, behind, rfl, -⟩ | h)
      · exact absurd rfl (hopen behind rfl)
      · exact h.cons _
  | case4 => simp [not_opensBefore_nil]

/-- The last opening pair of some lexemes has a closing pair behind it. -/
def LastClosed (ls : List Lexeme) : Prop :=
  ∃ before behind, ls = before ++ opening :: behind ∧ opening ∉ behind ∧ closing ∈ behind

theorem lastClosed_cons {l : Lexeme} {rest : List Lexeme} :
    LastClosed (l :: rest) ↔
      (l = opening ∧ opening ∉ rest ∧ closing ∈ rest) ∨ LastClosed rest := by
  refine ⟨?_, ?_⟩
  · intro h
    obtain ⟨before, behind, heq, h⟩ := h
    rw [List.cons_eq_append_iff] at heq
    rcases heq with ⟨rfl, heq⟩ | ⟨before', rfl, heq⟩
    · obtain ⟨rfl, rfl⟩ := List.cons.inj heq.symm
      exact Or.inl ⟨rfl, h⟩
    · exact Or.inr ⟨before', behind, heq, h⟩
  · rintro (⟨rfl, h⟩ | ⟨before, behind, rfl, h⟩)
    · exact ⟨[], rest, rfl, h⟩
    · exact ⟨l :: before, behind, rfl, h⟩

/-- **The last opening pair**: the last one that is read has a closing pair behind it exactly when
the last one that is written has. In a run of an odd number of braces they are not the same. -/
theorem lastClosed_ofChars {cs : List Char} :
    LastClosed (ofChars cs) ↔
      OpensBefore (fun behind =>
        ¬ opening.chars <:+: '{' :: behind ∧ closing.chars <:+: behind) cs := by
  fun_induction ofChars cs with
  | case1 rest ih =>
    rw [lastClosed_cons, opensBefore_cons, opensBefore_cons, ← ih, opening_mem_ofChars,
      closing_mem_ofChars]
    refine ⟨?_, ?_⟩
    · rintro (⟨-, hopen, hclose⟩ | h)
      · by_cases hbrace : opening.chars <:+: '{' :: rest
        · -- a third brace follows, and the last pair written is made of the second and the third
          rcases List.infix_cons_iff.mp hbrace with ⟨behind, heq⟩ | hrest
          · obtain rfl : '{' :: behind = rest := by simpa [chars] using heq
            refine Or.inr (Or.inl ⟨rfl, behind, rfl, hopen, ?_⟩)
            simpa [List.infix_cons_iff, chars] using hclose
          · exact absurd hrest hopen
        · exact Or.inl ⟨rfl, rest, rfl, hbrace, hclose⟩
      · exact Or.inr (Or.inr h)
    · -- the last pair written is the one just read, the one a brace later, or in the rest
      rintro (⟨-, behind, heq, hopen, hclose⟩ | ⟨-, behind, rfl, hopen, hclose⟩ | h)
      · rw [(List.cons.inj heq).2]
        exact Or.inl ⟨rfl, fun hrest => hopen (List.infix_cons hrest), hclose⟩
      · exact Or.inl ⟨rfl, hopen, List.infix_cons hclose⟩
      · exact Or.inr h
  | case2 rest ih =>
    rw [opensBefore_cons, opensBefore_cons, ← ih, lastClosed_cons]
    simp
  | case3 c rest hopen hclose ih =>
    rw [opensBefore_cons, ← ih, lastClosed_cons]
    refine ⟨?_, ?_⟩
    · rintro (⟨h, -⟩ | h)
      · exact absurd h Lexeme.noConfusion
      · exact Or.inr h
    · rintro (⟨rfl, behind, rfl, -⟩ | h)
      · exact absurd rfl (hopen behind rfl)
      · exact Or.inr h
  | case4 => simp [not_opensBefore_nil, LastClosed]

/-! ### Single braces at the end -/

/-- The number of opening braces with which a text ends. -/
def trailingBraces (cs : List Char) : Nat :=
  (cs.reverse.takeWhile (· = '{')).length

theorem trailingBraces_concat (cs : List Char) (c : Char) :
    trailingBraces (cs ++ [c]) = if c = '{' then trailingBraces cs + 1 else 0 := by
  unfold trailingBraces
  by_cases h : c = '{'
  · simp [h]
  · simp [h]

/-- **Braces at the end**: the opening braces with which a text ends are read as pairs exactly when
their number is even. -/
theorem getLast?_ne_iff {ls : List Lexeme} (h : ls.IsChain Apart) :
    ls.getLast? ≠ some (char '{') ↔ Even (trailingBraces (ls.flatMap chars)) := by
  induction ls using List.reverseRecOn with
  | nil => simp [trailingBraces]
  | append_singleton rest l ih =>
    obtain ⟨hrest, -, hlast⟩ := List.isChain_append.mp h
    -- a brace before `l` is one of a pair if `l` starts with a brace
    have heven : l.chars.head? = some '{' → Even (trailingBraces (rest.flatMap chars)) := by
      intro hl
      rw [← ih hrest]
      intro hbrace
      exact apart_char.mp (hlast _ hbrace l rfl) (Or.inl rfl) hl
    rw [List.flatMap_append, List.flatMap_singleton, List.getLast?_concat]
    cases l with
    | opening =>
      -- two more braces change the number by two
      have htwo : rest.flatMap chars ++ opening.chars = (rest.flatMap chars ++ ['{']) ++ ['{'] := by
        simp [chars]
      rw [htwo, trailingBraces_concat, trailingBraces_concat]
      simpa [Nat.even_add_one] using heven rfl
    | closing =>
      have htwo : rest.flatMap chars ++ closing.chars = (rest.flatMap chars ++ ['}']) ++ ['}'] := by
        simp [chars]
      rw [htwo, trailingBraces_concat]
      simp
    | char c =>
      rw [chars, trailingBraces_concat]
      -- a single brace makes the number odd, anything else makes it 0
      by_cases hc : c = '{'
      · subst hc
        simpa [Nat.even_add_one] using heven rfl
      · simp [hc]

end Stencil.Lexeme
