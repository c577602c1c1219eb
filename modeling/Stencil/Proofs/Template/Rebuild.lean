import Stencil.Proofs.Outcome
import Stencil.Proofs.Template.Tree
import Stencil.Template.Register

/-!
# What a registration computes

The steps of a registration, each with what it changes and what it leaves alone.

* `relabel` changes identities only (`bare_relabel`).
* `variantsOf` gives each column the sections of the text indented to it, with the placeholders of
  bound keys made inner ones (`variantsOf_eq_ok_iff`).
* `rebuild` changes variants only (`bare_rebuild`); it succeeds when the variants of the node can be
  made and every inner template can be rebuilt for the columns at which they ask for it
  (`rebuild_eq_ok_iff`).
* `register` succeeds when none of the three refusals applies and the rebuilding with the copy in
  place does (`register_eq_ok_iff`).
-/

namespace Stencil.Template

/-- Whether a template is bound to a key. -/
def binds (t : Template) (key : String) : Bool :=
  decide (key ∈ t.innerKeys)

theorem lookup_inner_isSome (t : Template) (key : String) :
    (t.inner.lookup key).isSome = t.binds key :=
  Entries.lookup_isSome_eq t.inner key

theorem inner?_eq_none_iff {t : Template} {key : String} :
    t.inner? key = none ↔ t.binds key = false := by
  rw [← lookup_inner_isSome, Option.isSome_eq_false_iff, Option.isNone_iff_eq_none, inner?]

/-- The order of the inner templates does not matter for which keys are bound. -/
theorem binds_of_perm {t u : Template} (h : t.innerKeys.Perm u.innerKeys) : t.binds = u.binds := by
  ext key
  exact decide_eq_decide.mpr h.mem_iff

/-! ### New identities -/

theorem relabel_eq (t : Template) (supply : Supply) :
    t.relabel supply =
      ({ t with id := supply.draw.1, inner := (relabelInner t.inner supply.draw.2).1 },
        (relabelInner t.inner supply.draw.2).2) := by
  cases t
  rw [relabel]

/-- Each inner template gets new identities from the supply that is left by those before it. -/
theorem relabelInner_forall₂ (inner : List (String × Template)) (supply : Supply) :
    List.Forall₂ (fun entry entry' => ∃ s, entry' = (entry.1, (entry.2.relabel s).1)) inner
      (relabelInner inner supply).1 := by
  induction inner generalizing supply with
  | nil =>
    rw [relabelInner]
    exact .nil
  | cons entry rest ih =>
    obtain ⟨key, i⟩ := entry
    rw [relabelInner]
    exact .cons ⟨supply, rfl⟩ (ih _)

/-- **New identities and nothing else.** -/
theorem bare_relabel (t : Template) (supply : Supply) : (t.relabel supply).1.bare = t.bare := by
  induction t using Template.induction generalizing supply with
  | node t ih =>
    -- each inner template has its identities from another supply, hence the general supply
    have hinner := Lists.map_eq_map_of_forall₂ (relabelInner_forall₂ t.inner supply.draw.2)
      (f := fun entry => (entry.1, entry.2.bare)) (g := fun entry => (entry.1, entry.2.bare)) ?_
    · rw [relabel_eq, bare_eq, bare_eq]
      simp only [hinner]
    · rintro ⟨key, i⟩ hmem _ - ⟨s, rfl⟩
      exact Prod.ext rfl (ih key i hmem s)

/-! ### Variants -/

variable {text : String} {bound : String → Bool} {columns : List Nat}
  {variants : List (Nat × List Section)}

theorem variantsOf_eq_ok_iff :
    variantsOf text bound columns = .ok variants ↔
      List.Forall₂ (fun column variant =>
        ∃ raw, Section.parse (Text.indent column text) = .ok raw ∧
          variant = (column, raw.map (Section.bind bound))) columns variants := by
  unfold variantsOf
  simp only [Outcome.mapM_eq_ok_iff, Outcome.bind_eq_ok_iff, Outcome.pure_eq_ok_iff]

/-- The variants are for the columns asked for, in their order. -/
theorem columns_variantsOf (h : variantsOf text bound columns = .ok variants) :
    variants.map Prod.fst = columns := by
  rw [variantsOf_eq_ok_iff] at h
  induction h with
  | nil => rfl
  | cons hhead _ ih =>
    obtain ⟨raw, -, rfl⟩ := hhead
    rw [List.map_cons, ih]

theorem exists_parse_of_mem_variants (h : variantsOf text bound columns = .ok variants)
    {column : Nat} {sections : List Section} (hmem : (column, sections) ∈ variants) :
    ∃ raw, Section.parse (Text.indent column text) = .ok raw ∧
      sections = raw.map (Section.bind bound) := by
  rw [variantsOf_eq_ok_iff] at h
  obtain ⟨c, -, raw, hraw, heq⟩ := Lists.exists_of_mem_right h hmem
  obtain ⟨rfl, rfl⟩ := Prod.mk.inj heq
  exact ⟨raw, hraw, rfl⟩

/-! ### Rebuilding -/

theorem rebuildInner_eq_ok_iff {inner inner' : List (String × Template)} :
    rebuildInner variants inner = .ok inner' ↔
      List.Forall₂ (fun entry entry' =>
        ∃ i, entry.2.rebuild (innerColumns variants entry.1) = .ok i ∧ entry' = (entry.1, i))
        inner inner' := by
  induction inner generalizing inner' with
  | nil => rw [rebuildInner, Outcome.pure_eq_ok_iff, List.forall₂_nil_left_iff]
  | cons entry rest ih =>
    obtain ⟨key, t⟩ := entry
    rw [rebuildInner, Outcome.bind_eq_ok_iff, List.forall₂_cons_left_iff]
    refine ⟨?_, ?_⟩
    · intro h
      obtain ⟨i, hi, hrest⟩ := h
      obtain ⟨rest', hrest', heq⟩ := Outcome.bind_eq_ok_iff.mp hrest
      exact ⟨(key, i), rest', ⟨i, hi, rfl⟩, ih.mp hrest', Outcome.pure_eq_ok_iff.mp heq⟩
    · intro h
      obtain ⟨_, rest', ⟨i, hi, rfl⟩, hrest', rfl⟩ := h
      exact ⟨i, hi, Outcome.bind_eq_ok_iff.mpr ⟨rest', ih.mpr hrest', rfl⟩⟩

theorem rebuild_eq_ok_iff {t t' : Template} :
    t.rebuild columns = .ok t' ↔
      ∃ variants inner, variantsOf t.text t.binds columns = .ok variants ∧
        rebuildInner variants t.inner = .ok inner ∧ t' = { t with variants, inner } := by
  have hbinds : (fun key => (t.inner.lookup key).isSome) = t.binds :=
    funext t.lookup_inner_isSome
  cases t
  simp only [rebuild, Outcome.bind_eq_ok_iff, Outcome.pure_eq_ok_iff] at hbinds ⊢
  rw [hbinds]
  refine ⟨?_, ?_⟩
  · intro h
    obtain ⟨variants, hvariants, inner, hinner, rfl⟩ := h
    exact ⟨variants, inner, hvariants, hinner, rfl⟩
  · intro h
    obtain ⟨variants, inner, hvariants, hinner, rfl⟩ := h
    exact ⟨variants, hvariants, inner, hinner, rfl⟩

/-- **New variants and nothing else.** -/
theorem bare_rebuild {t t' : Template} (h : t.rebuild columns = .ok t') : t'.bare = t.bare := by
  induction t using Template.induction generalizing columns t' with
  | node t ih =>
    obtain ⟨variants, inner, -, hinner, rfl⟩ := rebuild_eq_ok_iff.mp h
    -- each inner template is rebuilt for columns of its own, hence the general columns
    have hbare := Lists.map_eq_map_of_forall₂ (rebuildInner_eq_ok_iff.mp hinner)
      (f := fun entry => (entry.1, entry.2.bare)) (g := fun entry => (entry.1, entry.2.bare)) ?_
    · rw [bare_eq, bare_eq]
      simp only [hbare]
    · rintro ⟨key, i⟩ hmem _ - ⟨i', hi', rfl⟩
      exact Prod.ext rfl (ih key i hmem hi')

/-! ### Registering -/

/-- **A registration that succeeds**: the key is not blank, the inner template is not the receiver,
the key is free, and the receiver can be rebuilt with a copy of the inner template put last. -/
theorem register_eq_ok_iff {t i : Template} {key : String} {supply : Supply} {r : Registration} :
    t.register key i supply = .ok r ↔
      (Text.trim key ≠ "" ∧ i.id ≠ t.id ∧ key ∉ t.innerKeys) ∧
        { t with inner := t.inner ++ [(key, (i.relabel supply).1)] }.rebuild t.columns
            = .ok r.template ∧
        r.template.inner? key = some r.stored ∧ r.supply = (i.relabel supply).2 := by
  have hfree : (t.inner? key).isSome = true ↔ key ∈ t.innerKeys := by
    rw [inner?, lookup_inner_isSome, binds, decide_eq_true_iff]
  unfold register
  -- the three refusals one after another, then the rebuilding
  split
  · next hblank =>
    have : Text.trim key = "" := String.isEmpty_iff.mp hblank
    simp [this]
  · next hblank =>
    have hblank' : Text.trim key ≠ "" := mt String.isEmpty_iff.mpr hblank
    split
    · next hself => simp [hself]
    · next hself =>
      split
      · next htaken => simp [hfree.mp htaken]
      · next htaken =>
        rw [and_iff_right ⟨hblank', hself, mt hfree.mpr htaken⟩]
        generalize i.relabel supply = copy
        rw [Outcome.bind_eq_ok_iff]
        refine ⟨?_, ?_⟩
        · intro h
          obtain ⟨template, htemplate, h⟩ := h
          cases hstored : template.inner? key with
          | none => simp [hstored] at h
          | some stored =>
            rw [hstored] at h
            obtain rfl := Outcome.pure_eq_ok_iff.mp h
            exact ⟨htemplate, hstored, rfl⟩
        · intro h
          obtain ⟨htemplate, hstored, hsupply⟩ := h
          refine ⟨r.template, htemplate, ?_⟩
          rw [hstored]
          exact Outcome.pure_eq_ok_iff.mpr (by rw [← hsupply])

end Stencil.Template
