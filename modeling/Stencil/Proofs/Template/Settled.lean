import Stencil.Proofs.Section.Parse
import Stencil.Proofs.Template.Rebuild
import Stencil.Template.Blueprint

/-!
# Settled templates

A template is **settled** when its variants are the ones that its text and the keys of its inner
templates call for, and the columns of its inner templates are the ones that its variants ask for
(`Template.Settled`). It is a property of one node and its inner templates; a tree is settled when
every node of it is (`t.All Settled`).

A template just compiled is settled (`all_settled_compile`), and registering keeps templates settled
(`all_settled_register`): rebuilding settles any tree whose keys and sizes are right, whatever its
variants were before (`all_settled_rebuild`). It gives the root the columns that it had, so the
template around it stays settled too (`all_settled_replaceAt`).
-/

namespace Stencil.Template

/-- The keys and the size are those of the text, and no key is bound twice. -/
structure Declared (t : Template) : Prop where
  keys : ∃ sections, Section.parse t.text = .ok sections ∧
    t.keys = Section.declaredKeys sections
  size : t.size = t.config.estimatedSize t.text
  distinct : t.innerKeys.Nodup

/-- The variants are those that the text and the bound keys call for, and the inner templates have
the columns that the variants ask for. -/
structure Settled (t : Template) : Prop where
  declared : t.Declared
  zero_mem : 0 ∈ t.columns
  ascending : t.columns.Pairwise (· < ·)
  variants : variantsOf t.text t.binds t.columns = .ok t.variants
  inner_columns : ∀ key i, (key, i) ∈ t.inner → i.columns = innerColumns t.variants key

/-! ### What depends on the bare tree only -/

theorem innerKeys_bare (t : Template) : t.bare.innerKeys = t.innerKeys := by
  rw [bare_eq, innerKeys, innerKeys, List.map_map]
  rfl

theorem declared_bare (t : Template) : t.bare.Declared ↔ t.Declared := by
  have hkeys := t.innerKeys_bare
  refine ⟨?_, ?_⟩
  · intro h
    obtain ⟨keys, size, distinct⟩ := h
    rw [hkeys] at distinct
    rw [bare_eq] at keys size
    exact ⟨keys, size, distinct⟩
  · intro h
    obtain ⟨keys, size, distinct⟩ := h
    rw [← hkeys] at distinct
    refine ⟨?_, ?_, distinct⟩
    · rw [bare_eq]
      exact keys
    · rw [bare_eq]
      exact size

theorem all_declared_bare (t : Template) : t.bare.All Declared ↔ t.All Declared := by
  induction t using Template.induction with
  | node t ih =>
    -- the nodes of the bare tree are those of the tree, made bare
    have hinner : t.bare.inner = t.inner.map fun entry => (entry.1, entry.2.bare) := by
      rw [bare_eq]
    refine ⟨?_, ?_⟩
    · intro h
      refine .node ((declared_bare t).mp h.here) fun key i hmem => (ih key i hmem).mp ?_
      refine @All.of_mem_inner _ _ h key _ ?_
      rw [hinner]
      exact List.mem_map.mpr ⟨(key, i), hmem, rfl⟩
    · intro h
      refine .node ((declared_bare t).mpr h.here) fun key i hmem => ?_
      rw [hinner] at hmem
      obtain ⟨⟨key', i'⟩, hmem', heq⟩ := List.mem_map.mp hmem
      obtain ⟨rfl, rfl⟩ := Prod.mk.inj heq
      exact (ih _ _ hmem').mpr (h.of_mem_inner hmem')

/-- Trees with the same bare tree are declared alike. -/
theorem all_declared_congr {t u : Template} (h : t.bare = u.bare) :
    t.All Declared ↔ u.All Declared := by
  rw [← all_declared_bare t, h, all_declared_bare]

/-! ### Columns asked for -/

theorem mem_innerColumns {variants : List (Nat × List Section)} {key : String} {c : Nat} :
    c ∈ innerColumns variants key ↔
      c = 0 ∨ ∃ column sections, (column, sections) ∈ variants ∧ .inner key c ∈ sections := by
  have hcolumn : ∀ s : Section, s.innerColumn? key = some c ↔ s = .inner key c := by
    intro s
    cases s with
    | static | dynamic => simp [Section.innerColumn?]
    | inner k column =>
      by_cases hk : k = key
      · simp [Section.innerColumn?, hk]
      · simp [Section.innerColumn?, hk]
  rw [innerColumns, Columns.mem_ofList, List.mem_cons, List.mem_filterMap]
  refine or_congr_right ?_
  refine ⟨?_, ?_⟩
  · intro h
    obtain ⟨s, hs, heq⟩ := h
    obtain ⟨⟨column, sections⟩, hmem, hs⟩ := List.mem_flatMap.mp hs
    rw [(hcolumn s).mp heq] at hs
    exact ⟨column, sections, hmem, hs⟩
  · intro h
    obtain ⟨column, sections, hmem, hs⟩ := h
    exact ⟨_, List.mem_flatMap.mpr ⟨_, hmem, hs⟩, (hcolumn _).mpr rfl⟩

theorem zero_mem_innerColumns (variants : List (Nat × List Section)) (key : String) :
    0 ∈ innerColumns variants key :=
  mem_innerColumns.mpr (Or.inl rfl)

theorem ascending_innerColumns (variants : List (Nat × List Section)) (key : String) :
    (innerColumns variants key).Pairwise (· < ·) :=
  Columns.pairwise_ofList _

/-! ### Making settled templates -/

/-- **Rebuilding settles**: whatever variants a tree had, rebuilding its root for some columns
settles all of its nodes, and the root has these columns. -/
theorem all_settled_rebuild {t t' : Template} {columns : List Nat} (hd : t.All Declared)
    (hzero : 0 ∈ columns) (hascending : columns.Pairwise (· < ·))
    (h : t.rebuild columns = .ok t') : t'.All Settled ∧ t'.columns = columns := by
  induction t using Template.induction generalizing columns t' with
  | node t ih =>
    have hd' : t'.All Declared := (all_declared_congr (bare_rebuild h)).mpr hd
    have hkeys : t'.innerKeys = t.innerKeys := by
      rw [← innerKeys_bare, bare_rebuild h, innerKeys_bare]
    obtain ⟨variants, inner, hvariants, hinner, rfl⟩ := rebuild_eq_ok_iff.mp h
    have hcolumns : variants.map Prod.fst = columns := columns_variantsOf hvariants
    -- an inner template was rebuilt for the columns that the new variants ask for
    have hbelow : ∀ key i, (key, i) ∈ inner →
        i.All Settled ∧ i.columns = innerColumns variants key := by
      intro key i hmem
      obtain ⟨⟨key', i₀⟩, hmem₀, i', hi', heq⟩ :=
        Lists.exists_of_mem_right (rebuildInner_eq_ok_iff.mp hinner) hmem
      obtain ⟨rfl, rfl⟩ := Prod.mk.inj heq
      exact ih _ i₀ hmem₀ (hd.of_mem_inner hmem₀) (zero_mem_innerColumns _ _)
        (ascending_innerColumns _ _) hi'
    refine ⟨.node ⟨hd'.here, ?_, ?_, ?_, fun key i hmem => (hbelow key i hmem).2⟩
      fun key i hmem => (hbelow key i hmem).1, hcolumns⟩
    · change 0 ∈ variants.map Prod.fst
      rwa [hcolumns]
    · change (variants.map Prod.fst).Pairwise (· < ·)
      rwa [hcolumns]
    · rw [binds_of_perm (.of_eq hkeys)]
      change variantsOf t.text t.binds (variants.map Prod.fst) = .ok variants
      rwa [hcolumns]

theorem map_bind_eq_self {bound : String → Bool} (h : ∀ key, bound key = false)
    (sections : List Section) : sections.map (Section.bind bound) = sections := by
  refine (List.map_congr_left (g := fun s => s) fun s _ => ?_).trans (List.map_id' sections)
  cases s <;> simp [Section.bind, h]

/-- A template just compiled is settled. -/
theorem all_settled_compile {text : String} {config : Config} {id : Identity} {t : Template}
    (h : compile text config id = .ok t) : t.All Settled := by
  unfold compile at h
  split at h
  · cases h
  · obtain ⟨sections, hsections, heq⟩ := Outcome.bind_eq_ok_iff.mp h
    obtain rfl := Outcome.pure_eq_ok_iff.mp heq
    refine .node ⟨⟨⟨sections, hsections, rfl⟩, rfl, List.nodup_nil⟩, List.mem_singleton_self 0,
      List.pairwise_singleton _ _, ?_, fun key i hmem => absurd hmem List.not_mem_nil⟩
      fun key i hmem => absurd hmem List.not_mem_nil
    -- the text is not moved for column 0, and nothing is bound
    refine variantsOf_eq_ok_iff.mpr (.cons ⟨sections, ?_, ?_⟩ .nil)
    · rw [Text.indent_zero]
      exact hsections
    · exact congrArg (Prod.mk 0) (map_bind_eq_self (fun _ => rfl) sections).symm

/-- **Registering keeps templates settled**, and the receiver keeps its columns. -/
theorem all_settled_register {t i : Template} {key : String} {supply : Supply}
    {r : Registration} (ht : t.All Settled) (hi : i.All Settled)
    (h : t.register key i supply = .ok r) :
    r.template.All Settled ∧ r.template.columns = t.columns := by
  obtain ⟨⟨-, -, hfree⟩, hrebuild, -⟩ := register_eq_ok_iff.mp h
  -- what is rebuilt is declared: the copy differs from what was registered in identities only, and
  -- its key was free
  have hdt := ht.imp fun _ hn => hn.declared
  have hcopy : (i.relabel supply).1.All Declared :=
    (all_declared_congr (bare_relabel i supply)).mpr (hi.imp fun _ hn => hn.declared)
  refine all_settled_rebuild (.node ?_ ?_) ht.here.zero_mem ht.here.ascending hrebuild
  · obtain ⟨hkeys, hsize, hdistinct⟩ := hdt.here
    refine ⟨hkeys, hsize, ?_⟩
    rw [innerKeys, List.map_append]
    refine List.nodup_append.mpr ⟨hdistinct, List.pairwise_singleton _ _, ?_⟩
    rintro k hk k' hk' rfl
    obtain rfl : k = key := List.mem_singleton.mp hk'
    exact hfree hk
  · intro k j hmem
    rcases List.mem_append.mp hmem with hmem | hmem
    · exact hdt.of_mem_inner hmem
    · obtain ⟨rfl, rfl⟩ := Prod.mk.inj (List.mem_singleton.mp hmem)
      exact hcopy

/-- **A settled tree in the place of a node** with the same columns leaves the tree settled. -/
theorem all_settled_replaceAt {t n new : Template} {path : List String} (ht : t.All Settled)
    (hn : t.find? path = some n) (hnew : new.All Settled) (hcolumns : new.columns = n.columns) :
    (t.replaceAt path new).All Settled ∧ (t.replaceAt path new).columns = t.columns := by
  induction path generalizing t with
  | nil =>
    obtain rfl : t = n := Option.some.inj hn
    exact ⟨hnew, hcolumns⟩
  | cons key path ih =>
    rw [find?_cons, Option.bind_eq_some_iff] at hn
    obtain ⟨i, hi, hn⟩ := hn
    have hmem := Entries.mem_of_lookup_eq_some hi
    -- by induction the inner template on the path stays settled and keeps its columns
    obtain ⟨hi', hcolumns'⟩ := ih (ht.of_mem_inner hmem) hn
    obtain ⟨⟨hkeys, hsize, hdistinct⟩, hzero, hascending, hvariants, hinner⟩ := ht.here
    have hsame : (t.replaceAt (key :: path) new).innerKeys = t.innerKeys :=
      innerKeys_replaceAt_cons
    -- only one inner template has the key, so every changed one is the one on the path
    have hbelow : ∀ k j, (k, j) ∈ (t.replaceAt (key :: path) new).inner →
        j.All Settled ∧ j.columns = innerColumns t.variants k := by
      intro k j hj
      rcases mem_inner_replaceAt hj with ⟨-, hj⟩ | ⟨i', rfl, hmem', rfl⟩
      · exact ⟨ht.of_mem_inner hj, hinner k j hj⟩
      · obtain rfl : i' = i := Entries.eq_of_mem hdistinct hmem' hmem
        exact ⟨hi', hcolumns'.trans (hinner k i' hmem')⟩
    refine ⟨.node ⟨⟨hkeys, hsize, ?_⟩, hzero, hascending, ?_, fun k j hj => (hbelow k j hj).2⟩
      fun k j hj => (hbelow k j hj).1, rfl⟩
    · rwa [hsame]
    · rw [binds_of_perm (.of_eq hsame)]
      exact hvariants

end Stencil.Template
