import Stencil.Proofs.Section.Pieces
import Stencil.Proofs.Text.Shift

/-!
# Cutting a text at its sections

A text that can be read is cut at its sections in one way only (`Cut.unique`). Literal text stands
for itself, and a placeholder ends with its braces, so from the front the pieces are told apart one
by one. It makes sense, therefore, to speak of the text before a placeholder.

The indented text has the sections of the cut, each moved where it stands (`Cut.parse_indent`). So
what is computed from the sections one by one, and put together, is shifted as a whole if it is
shifted section by section (`join_movedAll`).
-/

namespace Stencil.Section

open Text (isBlank)
open Lexeme (opening closing)

/-- A text cut at its sections. Each piece stands beside the section that it is read as. -/
structure Cut (text : String) (cut : List (List Char × Section)) : Prop where
  text_eq : cut.flatMap Prod.fst = text.toList
  parse_eq : parse text = .ok (cut.map Prod.snd)
  spelled : ∀ x ∈ cut, x.2.Spelled x.1

variable {text : String} {cut cut' : List (List Char × Section)} {column : Nat}

theorem exists_cut {sections : List Section} (h : parse text = .ok sections) :
    ∃ cut, Cut text cut ∧ cut.map Prod.snd = sections := by
  obtain ⟨cut, htext, rfl, hspelled, -⟩ := exists_cut_of_parse h 0
  exact ⟨cut, ⟨htext, h, hspelled⟩, rfl⟩

theorem Spelled.static_inv {text : String} {piece : List Char}
    (h : (Section.static text).Spelled piece) : piece = text.toList := by
  cases h with
  | static => rfl

/-- A section is written in one way at the front of a text. -/
theorem Spelled.piece_eq {s : Section} {piece piece' xs ys : List Char} (h : s.Spelled piece)
    (h' : s.Spelled piece') (heq : piece ++ xs = piece' ++ ys) : piece = piece' := by
  cases h with
  | static text =>
    cases h' with
    | static => rfl
  | dynamic raw column =>
    generalize hkey : Text.trim raw = key at h'
    cases h' with
    | dynamic raw' =>
      -- the keys are the same, and a closing brace follows the blanks behind each of them
      have hbrace : isBlank '}' = false := by decide
      have htrim : Text.trimChars raw.toList = Text.trimChars raw'.toList := by
        rw [← Text.toList_trim, ← Text.toList_trim, hkey]
      have hrest : raw.toList ++ '}' :: ('}' :: xs) = raw'.toList ++ '}' :: ('}' :: ys) := by
        simpa [Lexeme.chars] using heq
      rw [Text.eq_of_trimChars_eq hbrace hbrace htrim hrest]

/-- **There is one way to cut a text.** -/
theorem Cut.unique (h : Cut text cut) (h' : Cut text cut') : cut = cut' := by
  have htext : cut.flatMap Prod.fst = cut'.flatMap Prod.fst := h.text_eq.trans h'.text_eq.symm
  have hsections : cut.map Prod.snd = cut'.map Prod.snd :=
    Except.ok.inj (h.parse_eq.symm.trans h'.parse_eq)
  have hspelled := h.spelled
  have hspelled' := h'.spelled
  clear h h'
  -- piece by piece from the front: the sections are the same, so the pieces are
  induction cut generalizing cut' with
  | nil => exact (List.map_eq_nil_iff.mp hsections.symm).symm
  | cons x rest ih =>
    cases cut' with
    | nil => exact absurd hsections (List.cons_ne_nil _ _)
    | cons y rest' =>
      obtain ⟨piece, s⟩ := x
      obtain ⟨piece', s'⟩ := y
      obtain ⟨hs, hrest⟩ := List.cons.inj hsections
      obtain rfl : s = s' := hs
      obtain ⟨hpiece, hpieces⟩ := List.forall_mem_cons.mp hspelled
      obtain ⟨hpiece', hpieces'⟩ := List.forall_mem_cons.mp hspelled'
      rw [List.flatMap_cons, List.flatMap_cons] at htext
      obtain rfl : piece = piece' := hpiece.piece_eq hpiece' htext
      rw [ih (List.append_cancel_left htext) hrest hpieces hpieces']

/-- What holds wherever the text is cut is found by going through the one cut. -/
theorem Cut.forall_split_iff {P : List (List Char × Section) → List Char × Section → Prop}
    (h : Cut text cut) :
    (∀ front x back, Cut text (front ++ x :: back) → P front x) ↔
      ∀ n (hn : n < cut.length), P (cut.take n) cut[n] := by
  refine ⟨?_, ?_⟩
  · intro hP n hn
    have hsplit : cut = cut.take n ++ cut[n] :: cut.drop (n + 1) := by
      rw [List.getElem_cons_drop, List.take_append_drop]
    exact hP _ _ _ (hsplit ▸ h)
  · intro hP front x back hcut
    obtain rfl := h.unique hcut
    simpa using hP front.length (by simp)

/-! ### The indented text -/

/-- The indented text is read as the sections of the cut, moved where they stand. -/
theorem Cut.parse_indent (h : Cut text cut) (column : Nat) :
    parse (Text.indent column text) = .ok (movedAll column [] cut []) := by
  obtain ⟨cut', htext, hsections, hspelled, hparse⟩ := exists_cut_of_parse h.parse_eq column
  have hcut : Cut text cut' := ⟨htext, hsections.symm ▸ h.parse_eq, hspelled⟩
  rwa [h.unique hcut]

theorem moved_mem_movedAll (front : List (List Char × Section)) (x : List Char × Section)
    (back : List (List Char × Section)) :
    x.2.moved column (front.flatMap Prod.fst) (back.flatMap Prod.fst) ∈
      movedAll column [] (front ++ x :: back) [] :=
  List.mem_of_getElem? (getElem?_movedAll front x back)

/-- The moved sections are the sections of the cut, each moved where it stands. -/
theorem mem_movedAll {s : Section} :
    s ∈ movedAll column [] cut [] ↔ ∃ front x back, cut = front ++ x :: back ∧
      s = x.2.moved column (front.flatMap Prod.fst) (back.flatMap Prod.fst) := by
  refine ⟨?_, ?_⟩
  · intro h
    obtain ⟨n, hn⟩ := List.mem_iff_getElem?.mp h
    -- the section is the one of the piece with the same index
    have hlt : n < cut.length := by
      obtain ⟨hlt, -⟩ := List.getElem?_eq_some_iff.mp hn
      rwa [length_movedAll] at hlt
    have hsplit : cut = cut.take n ++ cut[n] :: cut.drop (n + 1) := by
      rw [List.getElem_cons_drop, List.take_append_drop]
    have hmoved := @getElem?_movedAll column (cut.take n) cut[n] (cut.drop (n + 1))
    rw [← hsplit, List.length_take_of_le hlt.le, hn] at hmoved
    exact ⟨_, _, _, hsplit, Option.some.inj hmoved⟩
  · rintro ⟨front, x, back, rfl, rfl⟩
    exact moved_mem_movedAll front x back

/-- **Section by section**: if the text that a moved section gives is the text that the section
gives, shifted, then so are these texts put together. -/
theorem join_movedAll {f g : Section → String}
    (h : ∀ front x back, cut = front ++ x :: back →
      f (x.2.moved column (front.flatMap Prod.fst) (back.flatMap Prod.fst)) =
        Text.shift column (g x.2)) :
    String.join ((movedAll column [] cut []).map f) =
      Text.shift column (String.join ((cut.map Prod.snd).map g)) := by
  -- the induction is on what is left of the cut, so the part behind `front` is generalized
  suffices hleft : ∀ front left, cut = front ++ left →
      String.join ((movedAll column (front.flatMap Prod.fst) left []).map f) =
        Text.shift column (String.join ((left.map Prod.snd).map g)) from hleft [] cut rfl
  intro front left hcut
  induction left generalizing front with
  | nil => rfl
  | cons x back ih =>
    have hnext : cut = (front ++ [x]) ++ back := by
      rw [hcut, List.append_assoc, List.singleton_append]
    have hback := ih (front ++ [x]) hnext
    rw [List.flatMap_append, List.flatMap_singleton] at hback
    rw [movedAll, List.append_nil, List.map_cons, List.map_cons, List.map_cons, String.join_cons,
      String.join_cons, Text.shift_append, h front x back hcut, hback]

end Stencil.Section
