import Stencil.Proofs.Section.Indent
import Stencil.Proofs.Template.Settled

/-!
# Registrations as patches

To register a template is to make all variants of the receiver and of everything below it anew. For
settled templates this comes down to a patch (`register_of_settled`): the receiver gets one more
inner template, the placeholders of its key become inner ones where they stand, and nothing else
changes.

Two facts about rebuilding are behind it.

* Texts that could be read once can be read at every column, so rebuilding does not fail
  (`exists_rebuild`).
* A settled tree that is rebuilt for the columns it has is the same tree again
  (`rebuild_of_settled`). The inner templates that were there before are asked for at the columns at
  which they were asked for before (`innerColumns_bindKey`).
-/

namespace Stencil

theorem Section.bind_bind (bound other : String → Bool) (s : Section) :
    (s.bind bound).bind other = s.bind fun key => bound key || other key := by
  cases s with
  | static | inner => rfl
  | dynamic key column =>
    cases hkey : bound key with
    | true => simp [bind, hkey]
    | false => simp [bind, hkey]

namespace Template

/-! ### Rebuilding succeeds -/

theorem exists_variantsOf {text : String} {sections : List Section}
    (h : Section.parse text = .ok sections) (bound : String → Bool) (columns : List Nat) :
    ∃ variants, variantsOf text bound columns = .ok variants := by
  simp only [variantsOf_eq_ok_iff]
  induction columns with
  | nil => exact ⟨[], .nil⟩
  | cons column rest ih =>
    obtain ⟨variants, hvariants⟩ := ih
    obtain ⟨raw, hraw, -⟩ := Section.map_key?_parse_indent h column
    exact ⟨_, .cons ⟨raw, hraw, rfl⟩ hvariants⟩

/-- **Rebuilding does not fail**, whatever columns are asked for. -/
theorem exists_rebuild {t : Template} (h : t.All Declared) (columns : List Nat) :
    ∃ t', t.rebuild columns = .ok t' := by
  induction t using Template.induction generalizing columns with
  | node t ih =>
    obtain ⟨sections, hsections, -⟩ := h.here.keys
    obtain ⟨variants, hvariants⟩ := exists_variantsOf hsections t.binds columns
    -- inner templates are rebuilt one by one, each for the columns that the new variants ask for
    have hinner : ∀ entries : List (String × Template), entries ⊆ t.inner →
        ∃ inner, rebuildInner variants entries = .ok inner := by
      intro entries hsub
      simp only [rebuildInner_eq_ok_iff]
      induction entries with
      | nil => exact ⟨[], .nil⟩
      | cons entry rest ihRest =>
        obtain ⟨key, i⟩ := entry
        obtain ⟨hmem, hrest⟩ := List.cons_subset.mp hsub
        obtain ⟨inner, hinner⟩ := ihRest hrest
        obtain ⟨i', hi'⟩ := ih key i hmem (h.of_mem_inner hmem) (innerColumns variants key)
        exact ⟨(key, i') :: inner, .cons ⟨i', hi', rfl⟩ hinner⟩
    obtain ⟨inner, hinner⟩ := hinner t.inner (List.Subset.refl _)
    exact ⟨_, rebuild_eq_ok_iff.mpr ⟨variants, inner, hvariants, hinner, rfl⟩⟩

/-- **A settled tree is rebuilt as it is.** -/
theorem rebuild_of_settled {t : Template} (h : t.All Settled) : t.rebuild t.columns = .ok t := by
  induction t using Template.induction with
  | node t ih =>
    have hinner : rebuildInner t.variants t.inner = .ok t.inner := by
      rw [rebuildInner_eq_ok_iff, List.forall₂_same]
      rintro ⟨key, i⟩ hmem
      have hcolumns : i.columns = innerColumns t.variants key := h.here.inner_columns key i hmem
      refine ⟨i, ?_, rfl⟩
      rw [← hcolumns]
      exact ih key i hmem (h.of_mem_inner hmem)
    refine rebuild_eq_ok_iff.mpr ⟨t.variants, t.inner, h.here.variants, hinner, ?_⟩
    cases t
    rfl

/-! ### One more key -/

/-- Variants with the dynamic placeholders of one key made inner ones. -/
def bindKey (key : String) (variants : List (Nat × List Section)) : List (Nat × List Section) :=
  variants.map fun variant => (variant.1, variant.2.map (Section.bind (· == key)))

theorem variantsOf_bindKey {text : String} {bound : String → Bool} {columns : List Nat}
    {variants : List (Nat × List Section)} (h : variantsOf text bound columns = .ok variants)
    (key : String) :
    variantsOf text (fun k => bound k || k == key) columns = .ok (bindKey key variants) := by
  rw [variantsOf_eq_ok_iff] at h ⊢
  rw [bindKey, List.forall₂_map_right_iff]
  refine h.imp fun column variant hvariant => ?_
  obtain ⟨raw, hraw, rfl⟩ := hvariant
  refine ⟨raw, hraw, ?_⟩
  simp only [List.map_map, Function.comp_def, Section.bind_bind]

/-- The other keys are asked for at the columns at which they were. -/
theorem innerColumns_bindKey {key other : String} (hne : other ≠ key)
    (variants : List (Nat × List Section)) :
    innerColumns (bindKey key variants) other = innerColumns variants other := by
  have hcolumn : ∀ s : Section,
      (s.bind (· == key)).innerColumn? other = s.innerColumn? other := by
    intro s
    cases s with
    | static | inner => rfl
    | dynamic k column =>
      by_cases hk : k = key
      · simp [Section.bind, Section.innerColumn?, hk, hne.symm]
      · simp [Section.bind, Section.innerColumn?, hk]
  have hsections : (bindKey key variants).flatMap Prod.snd =
      (variants.flatMap Prod.snd).map (Section.bind (· == key)) := by
    rw [bindKey, List.flatMap_map, List.map_flatMap]
  rw [innerColumns, hsections, List.filterMap_map]
  simp only [Function.comp_def, hcolumn]
  rfl

/-! ### Refusals and registrations -/

/-- Why a registration is refused. A reason counts when those before it do not apply. -/
inductive Refuses (t : Template) (key : String) (i : Template) : BindingFault → Prop where
  | blankKey (blank : Text.trim key = "") : Refuses t key i .blankKey
  | itself (visible : Text.trim key ≠ "") (same : i.id = t.id) : Refuses t key i .itself
  | takenKey (visible : Text.trim key ≠ "") (other : i.id ≠ t.id) (taken : key ∈ t.innerKeys) :
    Refuses t key i (.takenKey key)

variable {t i : Template} {key : String}

theorem exists_refuses_iff :
    (∃ reason, t.Refuses key i reason) ↔
      Text.trim key = "" ∨ i.id = t.id ∨ key ∈ t.innerKeys := by
  refine ⟨?_, ?_⟩
  · rintro ⟨_, blank | ⟨-, same⟩ | ⟨-, -, taken⟩⟩
    · exact Or.inl blank
    · exact Or.inr (Or.inl same)
    · exact Or.inr (Or.inr taken)
  · intro h
    by_cases blank : Text.trim key = ""
    · exact ⟨_, .blankKey blank⟩
    by_cases same : i.id = t.id
    · exact ⟨_, .itself blank same⟩
    have taken : key ∈ t.innerKeys := (h.resolve_left blank).resolve_left same
    exact ⟨_, .takenKey blank same taken⟩

theorem register_of_refuses {reason : BindingFault} (h : t.Refuses key i reason)
    (supply : Supply) : t.register key i supply = .error (.binding reason) := by
  unfold register
  cases h with
  | blankKey blank => rw [if_pos (String.isEmpty_iff.mpr blank)]
  | itself visible same => rw [if_neg (mt String.isEmpty_iff.mp visible), if_pos same]
  | takenKey visible other taken =>
    have hbound : (t.inner? key).isSome = true := by
      rw [inner?, lookup_inner_isSome, binds]
      exact decide_eq_true taken
    rw [if_neg (mt String.isEmpty_iff.mp visible), if_neg other, if_pos hbound]

/-- What is put behind the inner templates is found under its key. -/
theorem lookup_append_inner (hfree : key ∉ t.innerKeys) {stored : Template} :
    (t.inner ++ [(key, stored)]).lookup key = some stored := by
  have hnone : t.inner.lookup key = none := by
    rw [← inner?, inner?_eq_none_iff, binds]
    exact decide_eq_false hfree
  rw [List.lookup_append, hnone, Option.none_or, List.lookup_cons_self]

/-- **A registration that is not refused succeeds and is a patch** of the receiver: one more inner
template in the last place, which differs from the template registered in its identities and
variants only, and its key bound in every variant. -/
theorem register_of_settled (ht : t.All Settled) (hi : i.All Settled)
    (hkey : Text.trim key ≠ "") (hself : i.id ≠ t.id) (hfree : key ∉ t.innerKeys)
    (supply : Supply) :
    ∃ stored, t.register key i supply = .ok {
        template := { t with
          variants := bindKey key t.variants
          inner := t.inner ++ [(key, stored)] }
        stored
        supply := (i.relabel supply).2 } ∧ stored.bare = i.bare := by
  have hbare : (i.relabel supply).1.bare = i.bare := bare_relabel i supply
  have hcopy : (i.relabel supply).1.All Declared :=
    (all_declared_congr hbare).mpr (hi.imp fun _ hn => hn.declared)
  obtain ⟨stored, hstored⟩ := exists_rebuild hcopy (innerColumns (bindKey key t.variants) key)
  have hbinds : ({ t with inner := t.inner ++ [(key, (i.relabel supply).1)] } : Template).binds =
      fun k => t.binds k || k == key := by
    funext k
    have hmem : k ∈ t.innerKeys ++ [key] ↔ k ∈ t.innerKeys ∨ k = key := by
      rw [List.mem_append, List.mem_singleton]
    rw [Bool.eq_iff_iff, Bool.or_eq_true, binds, binds, decide_eq_true_iff, decide_eq_true_iff,
      beq_iff_eq, ← hmem, innerKeys, List.map_append]
    rfl
  have hvariants : variantsOf t.text
      ({ t with inner := t.inner ++ [(key, (i.relabel supply).1)] } : Template).binds t.columns =
        .ok (bindKey key t.variants) := by
    rw [hbinds]
    exact variantsOf_bindKey ht.here.variants key
  -- the inner templates that are there already are rebuilt as they are
  have hinner : rebuildInner (bindKey key t.variants)
      (t.inner ++ [(key, (i.relabel supply).1)]) = .ok (t.inner ++ [(key, stored)]) := by
    rw [rebuildInner_eq_ok_iff]
    refine List.rel_append ?_ (.cons ⟨stored, hstored, rfl⟩ .nil)
    rw [List.forall₂_same]
    rintro ⟨k, j⟩ hmem
    have hne : k ≠ key := by
      rintro rfl
      exact hfree (List.mem_map.mpr ⟨(k, j), hmem, rfl⟩)
    have hcolumns : innerColumns (bindKey key t.variants) k = j.columns := by
      rw [innerColumns_bindKey hne, ht.here.inner_columns k j hmem]
    refine ⟨j, ?_, rfl⟩
    rw [hcolumns]
    exact rebuild_of_settled (ht.of_mem_inner hmem)
  refine ⟨stored, register_eq_ok_iff.mpr ⟨⟨hkey, hself, hfree⟩, ?_, lookup_append_inner hfree, rfl⟩,
    (bare_rebuild hstored).trans hbare⟩
  exact rebuild_eq_ok_iff.mpr ⟨_, _, hvariants, hinner, rfl⟩

/-- What a registration leaves behind is the receiver with a patch. -/
theorem patch_of_register (ht : t.All Settled) (hi : i.All Settled) {supply : Supply}
    {r : Registration} (h : t.register key i supply = .ok r) :
    r.template = { t with
      variants := bindKey key t.variants
      inner := t.inner ++ [(key, r.stored)] } := by
  obtain ⟨⟨hkey, hself, hfree⟩, -⟩ := register_eq_ok_iff.mp h
  obtain ⟨stored, hpatch, -⟩ := register_of_settled ht hi hkey hself hfree supply
  rw [Except.ok.inj (h.symm.trans hpatch)]

/-- **Three reasons to refuse a registration, and no others.** -/
theorem register_eq_error_iff (ht : t.All Settled) (hi : i.All Settled) {supply : Supply}
    {fault : Fault} :
    t.register key i supply = .error fault ↔
      ∃ reason, t.Refuses key i reason ∧ fault = .binding reason := by
  refine ⟨?_, ?_⟩
  · intro hfault
    have hrefused : ∃ reason, t.Refuses key i reason := by
      rw [exists_refuses_iff]
      by_contra hallowed
      rw [not_or, not_or] at hallowed
      obtain ⟨hkey, hself, hfree⟩ := hallowed
      obtain ⟨stored, hpatch, -⟩ := register_of_settled ht hi hkey hself hfree supply
      rw [hfault] at hpatch
      cases hpatch
    obtain ⟨reason, hreason⟩ := hrefused
    have hregister := register_of_refuses hreason supply
    exact ⟨reason, hreason, Except.error.inj (hfault.symm.trans hregister)⟩
  · rintro ⟨reason, hreason, rfl⟩
    exact register_of_refuses hreason supply

end Template

end Stencil
