import Mathlib.Data.List.TakeWhile
import Stencil.Text.Blank

/-!
# Blanks at the ends of a text

To trim a text is to cut it in three: blanks, a core that neither begins nor ends with a blank, and
blanks (`exists_margins`). There is only one way to do so (`trimChars_append`). Where the last
blanks end is seen by what follows them (`eq_of_trimChars_eq`).
-/

namespace Stencil.Text

variable {cs : List Char}

/-- Removing the blanks at the ends removes blanks only. -/
theorem exists_margins (cs : List Char) :
    ∃ left right, (∀ c ∈ left ++ right, isBlank c) ∧ cs = left ++ trimChars cs ++ right := by
  refine ⟨cs.takeWhile isBlank, ((cs.dropWhile isBlank).reverse.takeWhile isBlank).reverse, ?_, ?_⟩
  · intro c hc
    rcases List.mem_append.mp hc with hc | hc
    · exact List.mem_takeWhile_imp hc
    · exact List.mem_takeWhile_imp (List.mem_reverse.mp hc)
  · -- the blanks at the end are those at the start of the reverse
    have hend : trimChars cs ++ ((cs.dropWhile isBlank).reverse.takeWhile isBlank).reverse =
        cs.dropWhile isBlank := by
      rw [trimChars, ← List.reverse_append, List.takeWhile_append_dropWhile,
        List.reverse_reverse]
    rw [List.append_assoc, hend, List.takeWhile_append_dropWhile]

theorem isBlank_of_mem_getLast?_trimChars {c : Char} (h : c ∈ (trimChars cs).getLast?) :
    isBlank c = false := by
  rw [trimChars, List.getLast?_reverse] at h
  have hhead := List.head?_dropWhile_not isBlank (cs.dropWhile isBlank).reverse
  rw [Option.mem_def.mp h] at hhead
  simpa using hhead

theorem isBlank_of_mem_head?_trimChars {c : Char} (h : c ∈ (trimChars cs).head?) :
    isBlank c = false := by
  -- the core is a beginning of the text without its first blanks
  have hprefix : trimChars cs <+: cs.dropWhile isBlank := by
    rw [trimChars, ← List.reverse_suffix, List.reverse_reverse]
    exact List.dropWhile_suffix isBlank
  obtain ⟨rest, hrest⟩ := hprefix
  have hhead := List.head?_dropWhile_not isBlank cs
  rw [← hrest, List.head?_append, Option.mem_def.mp h] at hhead
  simpa using hhead

theorem dropWhile_isBlank_of_head? (h : ∀ c ∈ cs.head?, isBlank c = false) :
    cs.dropWhile isBlank = cs := by
  cases cs with
  | nil => rfl
  | cons c rest =>
    have hc : ¬ isBlank c = true := Bool.eq_false_iff.mp (h c rfl)
    exact List.dropWhile_cons_of_neg hc

/-- Blanks around a core that neither begins nor ends with a blank are what is trimmed. -/
theorem trimChars_append {left core right : List Char} (hleft : ∀ c ∈ left, isBlank c)
    (hright : ∀ c ∈ right, isBlank c) (hhead : ∀ c ∈ core.head?, isBlank c = false)
    (hlast : ∀ c ∈ core.getLast?, isBlank c = false) :
    trimChars (left ++ core ++ right) = core := by
  have hstart : (left ++ core ++ right).dropWhile isBlank = (core ++ right).dropWhile isBlank := by
    rw [List.append_assoc, List.dropWhile_append, List.dropWhile_eq_nil_iff.mpr hleft]
    rfl
  rw [trimChars, hstart]
  cases core with
  | nil =>
    have hnil : ([] ++ right).dropWhile isBlank = [] := List.dropWhile_eq_nil_iff.mpr hright
    rw [hnil]
    rfl
  | cons c rest =>
    have hcore : (c :: rest ++ right).dropWhile isBlank = c :: rest ++ right :=
      dropWhile_isBlank_of_head? hhead
    have hright' : right.reverse.dropWhile isBlank = [] :=
      List.dropWhile_eq_nil_iff.mpr fun d hd => hright d (List.mem_reverse.mp hd)
    have hend : (c :: rest).reverse.dropWhile isBlank = (c :: rest).reverse := by
      refine dropWhile_isBlank_of_head? ?_
      rwa [List.head?_reverse]
    rw [hcore, List.reverse_append, List.dropWhile_append, hright', List.isEmpty_nil, if_pos rfl,
      hend, List.reverse_reverse]

/-- Blanks before something visible: where they end is seen. -/
theorem append_cons_inj_of_isBlank {as bs xs ys : List Char} {x y : Char}
    (has : ∀ c ∈ as, isBlank c) (hbs : ∀ c ∈ bs, isBlank c) (hx : isBlank x = false)
    (hy : isBlank y = false) (h : as ++ x :: xs = bs ++ y :: ys) :
    as = bs ∧ x :: xs = y :: ys := by
  have hblanks : as = bs := by
    have htake := congrArg (List.takeWhile isBlank) h
    rw [List.takeWhile_append_of_pos has, List.takeWhile_append_of_pos hbs,
      List.takeWhile_cons_of_neg (Bool.eq_false_iff.mp hx),
      List.takeWhile_cons_of_neg (Bool.eq_false_iff.mp hy), List.append_nil,
      List.append_nil] at htake
    exact htake
  subst hblanks
  exact ⟨rfl, List.append_cancel_left h⟩

/-- Two beginnings of a text are the same if they have the same core and what follows them is
visible. -/
theorem eq_of_trimChars_eq {as bs xs ys : List Char} {x y : Char} (hx : isBlank x = false)
    (hy : isBlank y = false) (htrim : trimChars as = trimChars bs)
    (h : as ++ x :: xs = bs ++ y :: ys) : as = bs := by
  obtain ⟨left, right, hblank, has⟩ := exists_margins as
  obtain ⟨left', right', hblank', hbs⟩ := exists_margins bs
  obtain ⟨hleft, hright⟩ := List.forall_mem_append.mp hblank
  obtain ⟨hleft', hright'⟩ := List.forall_mem_append.mp hblank'
  rw [← htrim] at hbs
  rw [has, hbs] at h ⊢
  have hvisible : ∀ c ∈ (trimChars as).head?, isBlank c = false := fun c =>
    isBlank_of_mem_head?_trimChars
  cases hcore : trimChars as with
  | nil =>
    -- all that stands before the visible character is blank
    rw [hcore, List.append_nil, List.append_nil] at h
    rw [List.append_nil, List.append_nil]
    exact (append_cons_inj_of_isBlank hblank hblank' hx hy h).1
  | cons c core =>
    -- the margins are cut off one after the other
    have hc : isBlank c = false := hvisible c (by rw [hcore]; rfl)
    rw [hcore] at h
    simp only [List.append_assoc, List.cons_append] at h
    obtain ⟨rfl, hrest⟩ := append_cons_inj_of_isBlank hleft hleft' hc hc h
    have hend := List.append_cancel_left (List.cons.inj hrest).2
    obtain ⟨rfl, -⟩ := append_cons_inj_of_isBlank hright hright' hx hy hend
    rfl

end Stencil.Text
