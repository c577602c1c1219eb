import Stencil.Proofs.Template.Alike

/-!
# The order of assembly

A template can be put together in many orders: its inner templates may be complete when they are
registered, or be completed afterwards in their places, at any depth; they may be clones, or copies
that stood at other columns before. Nothing of this shows in the result. Two templates that can be
made and have the same skeleton and the same columns differ in their identities only; and if the
inner templates were registered in different orders, nothing that is done with data tells them
apart (`Session.assembly_of_find?`).

The reason is that the node of a settled tree is determined by its text, its configuration, its
inner keys and its columns (`Settled.congr`), and that it determines the columns of its inner
templates. So the induction goes from a node to the inner templates, with the columns carried along.
-/

namespace Stencil

namespace Template

/-! ### Trees without identities -/

/-- The tree without its identities. -/
def anonymous (t : Template) : Template :=
  t.mapNodes fun n => { n with id := ⟨0⟩ }

theorem anonymous_eq (t : Template) :
    t.anonymous = { t with
      id := ⟨0⟩
      inner := t.inner.map fun entry => (entry.1, entry.2.anonymous) } :=
  mapNodes_eq _ t

/-! ### What determines a settled node -/

variable {t u : Template}

/-- **A settled node is determined** by its text, its configuration, which keys are bound, and its
columns. -/
theorem Settled.congr (ht : t.Settled) (hu : u.Settled) (htext : t.text = u.text)
    (hconfig : t.config = u.config) (hbinds : t.binds = u.binds)
    (hcolumns : t.columns = u.columns) :
    t.variants = u.variants ∧ t.keys = u.keys ∧ t.size = u.size := by
  refine ⟨?variants, ?keys, ?size⟩
  case variants =>
    have hvariants := ht.variants
    rw [htext, hbinds, hcolumns, hu.variants] at hvariants
    exact (Except.ok.inj hvariants).symm
  case keys =>
    obtain ⟨sections, hsections, hkeys⟩ := ht.declared.keys
    obtain ⟨sections', hsections', hkeys'⟩ := hu.declared.keys
    rw [htext, hsections'] at hsections
    rw [hkeys, hkeys', Except.ok.inj hsections]
  case size =>
    rw [ht.declared.size, hu.declared.size, htext, hconfig]

/-- The inner templates of two settled nodes with the same variants have the same columns. -/
theorem Settled.columns_congr (ht : t.Settled) (hu : u.Settled)
    (hvariants : t.variants = u.variants) {key : String} {i j : Template}
    (hi : (key, i) ∈ t.inner) (hj : (key, j) ∈ u.inner) : i.columns = j.columns := by
  calc i.columns = innerColumns t.variants key := ht.inner_columns key i hi
    _ = innerColumns u.variants key := by rw [hvariants]
    _ = j.columns := (hu.inner_columns key j hj).symm

/-! ### Trees with the same skeleton -/

/-- **The same skeleton and the same columns at the root**: the trees differ in identities only. -/
theorem anonymous_eq_of_skeleton_eq (ht : t.All Settled) (hu : u.All Settled)
    (hcolumns : t.columns = u.columns) (h : t.skeleton = u.skeleton) :
    t.anonymous = u.anonymous := by
  induction t using Template.induction generalizing u with
  | node t ih =>
    rw [skeleton_eq, skeleton_eq, Skeleton.mk.injEq] at h
    obtain ⟨htext, hconfig, hinner⟩ := h
    -- the inner templates correspond to each other one by one
    have hitems : List.Forall₂ (fun entry entry' : String × Template =>
        entry.1 = entry'.1 ∧ entry.2.skeleton = entry'.2.skeleton) t.inner u.inner := by
      rw [← List.forall₂_eq_eq_eq, List.forall₂_map_left_iff, List.forall₂_map_right_iff] at hinner
      exact hinner.imp fun entry entry' heq => Prod.mk.inj heq
    have hkeys : t.innerKeys = u.innerKeys :=
      (Lists.map_eq_map_of_forall₂ hitems fun entry _ entry' _ h => h.1.symm).symm
    obtain ⟨hvariants, hdeclared, hsize⟩ :=
      ht.here.congr hu.here htext hconfig (binds_of_perm (.of_eq hkeys)) hcolumns
    have hbelow : u.inner.map (fun entry => (entry.1, entry.2.anonymous)) =
        t.inner.map fun entry => (entry.1, entry.2.anonymous) := by
      refine Lists.map_eq_map_of_forall₂ hitems ?_
      rintro ⟨key, i⟩ hi ⟨key', j⟩ hj ⟨rfl, hskeleton⟩
      have hij := ih key i hi (ht.of_mem_inner hi) (hu.of_mem_inner hj)
        (ht.here.columns_congr hu.here hvariants hi hj) hskeleton
      exact Prod.ext rfl hij.symm
    rw [anonymous_eq, anonymous_eq, hbelow]
    cases t
    cases u
    rw [Template.mk.injEq]
    exact ⟨rfl, htext, hconfig, hdeclared, hsize, hvariants, rfl⟩

/-- **The same skeleton up to the order of inner templates**: the trees are alike. -/
theorem alike_of_rearranged (ht : t.All Settled) (hu : u.All Settled)
    (hcolumns : t.columns = u.columns) (h : t.skeleton.Rearranged u.skeleton) : t.Alike u := by
  induction t using Template.induction generalizing u with
  | node t ih =>
    have hdistinct := ht.here.declared.distinct
    obtain ⟨htext, hconfig, hperm⟩ := h.here
    rw [text_skeleton, text_skeleton] at htext
    rw [config_skeleton, config_skeleton] at hconfig
    rw [keys_inner_skeleton, keys_inner_skeleton] at hperm
    obtain ⟨hvariants, hdeclared, hsize⟩ :=
      ht.here.congr hu.here htext hconfig (binds_of_perm hperm) hcolumns
    refine .node hvariants hdeclared hsize hdistinct hperm fun key i j hi hj => ?_
    have hi' := Entries.mem_of_lookup_eq_some hi
    have hj' := Entries.mem_of_lookup_eq_some hj
    refine ih key i hi' (ht.of_mem_inner hi') (hu.of_mem_inner hj')
      (ht.here.columns_congr hu.here hvariants hi' hj') ?_
    rw [← keys_inner_skeleton] at hdistinct
    exact h.of_mem_inner hdistinct (mem_inner_skeleton hi') (mem_inner_skeleton hj')

end Template

/-! ### Templates that can be made -/

namespace Session

/-- **The order of assembly does not show.** Let two templates that can be made have the same
columns. If their skeletons are equal, then nothing but their identities differs. If their skeletons
are equal up to the order of inner templates, then their nodes have the same variants, and all data
has the same rendering and the same estimate for both, and is accepted by both or by neither. -/
theorem assembly_of_find? {commands others : List Command} {address address' : Address}
    {t u : Template} (ht : (ofCommands commands).find? address = some t)
    (hu : (ofCommands others).find? address' = some u) (hcolumns : t.columns = u.columns) :
    (t.skeleton = u.skeleton → t.anonymous = u.anonymous) ∧
      (t.skeleton.Rearranged u.skeleton →
        (∀ path, (t.find? path).map Template.variants = (u.find? path).map Template.variants) ∧
          ∀ data, t.renderUnchecked data = u.renderUnchecked data ∧
            t.estimateData data = u.estimateData data ∧
              (t.check data = .ok () ↔ u.check data = .ok ())) := by
  have ht' := all_settled_of_find? ht
  have hu' := all_settled_of_find? hu
  refine ⟨Template.anonymous_eq_of_skeleton_eq ht' hu' hcolumns, fun h => ?_⟩
  have halike : t.Alike u := Template.alike_of_rearranged ht' hu' hcolumns h
  exact ⟨halike.find?, fun data =>
    ⟨halike.renderUnchecked data, halike.estimateData data, halike.check_eq_ok_iff data⟩⟩

/-- Texts for a page with a list and a title, all in slots of their own. -/
def texts : List Command :=
  [.compile "page" "{{title}}\n  {{list}}" {}, .compile "list" "- {{item}}" {},
    .compile "item" "{{value}}" {}, .compile "title" "{{value}}" {}]

/-- The page with its list, the list being complete before it is registered. -/
def bottomUp : List Command :=
  texts ++ [.register ⟨"list", []⟩ "item" ⟨"item", []⟩, .register ⟨"page", []⟩ "list" ⟨"list", []⟩,
    .register ⟨"page", []⟩ "title" ⟨"title", []⟩]

/-- The page with its list, the list being completed in its place. -/
def topDown : List Command :=
  texts ++ [.register ⟨"page", []⟩ "list" ⟨"list", []⟩,
    .register ⟨"page", []⟩ "title" ⟨"title", []⟩,
    .register ⟨"page", ["list"]⟩ "item" ⟨"item", []⟩]

/-- The page with its title first. -/
def titleFirst : List Command :=
  texts ++ [.register ⟨"page", []⟩ "title" ⟨"title", []⟩,
    .register ⟨"page", []⟩ "list" ⟨"list", []⟩,
    .register ⟨"page", ["list"]⟩ "item" ⟨"item", []⟩]

theorem assembly_of_find?_page :
    ∃ t u v, (ofCommands bottomUp).find? ⟨"page", []⟩ = some t ∧
      (ofCommands topDown).find? ⟨"page", []⟩ = some u ∧
        (ofCommands titleFirst).find? ⟨"page", []⟩ = some v ∧
          t.skeleton = u.skeleton ∧ t.anonymous = u.anonymous ∧
            t.skeleton.Rearranged v.skeleton ∧
              ∀ data, t.renderUnchecked data = v.renderUnchecked data := by
  have hbottomUp : ((ofCommands bottomUp).find? ⟨"page", []⟩).map
      (fun t => (t.columns, t.skeleton)) = some ([0], ⟨"{{title}}\n  {{list}}", {},
        [("list", ⟨"- {{item}}", {}, [("item", ⟨"{{value}}", {}, []⟩)]⟩),
          ("title", ⟨"{{value}}", {}, []⟩)]⟩) := by
    decide +kernel
  have htopDown : ((ofCommands topDown).find? ⟨"page", []⟩).map
      (fun t => (t.columns, t.skeleton)) = some ([0], ⟨"{{title}}\n  {{list}}", {},
        [("list", ⟨"- {{item}}", {}, [("item", ⟨"{{value}}", {}, []⟩)]⟩),
          ("title", ⟨"{{value}}", {}, []⟩)]⟩) := by
    decide +kernel
  have htitleFirst : ((ofCommands titleFirst).find? ⟨"page", []⟩).map
      (fun t => (t.columns, t.skeleton)) = some ([0], ⟨"{{title}}\n  {{list}}", {},
        [("title", ⟨"{{value}}", {}, []⟩),
          ("list", ⟨"- {{item}}", {}, [("item", ⟨"{{value}}", {}, []⟩)]⟩)]⟩) := by
    decide +kernel
  obtain ⟨t, ht, htshape⟩ := Option.map_eq_some_iff.mp hbottomUp
  obtain ⟨u, hu, hushape⟩ := Option.map_eq_some_iff.mp htopDown
  obtain ⟨v, hv, hvshape⟩ := Option.map_eq_some_iff.mp htitleFirst
  obtain ⟨htcolumns, htskeleton⟩ := Prod.mk.inj htshape
  obtain ⟨hucolumns, huskeleton⟩ := Prod.mk.inj hushape
  obtain ⟨hvcolumns, hvskeleton⟩ := Prod.mk.inj hvshape
  have hsame : t.skeleton = u.skeleton := htskeleton.trans huskeleton.symm
  have hrearranged : t.skeleton.Rearranged v.skeleton := by
    rw [htskeleton, hvskeleton]
    exact .node (.cons (.node (.cons (.node .nil .nil) .nil) (.refl _))
      (.cons (.node .nil .nil) .nil)) (.swap _ _ _)
  have htu := assembly_of_find? ht hu (htcolumns.trans hucolumns.symm)
  have htv := assembly_of_find? ht hv (htcolumns.trans hvcolumns.symm)
  exact ⟨t, u, v, ht, hu, hv, hsame, htu.1 hsame, hrearranged,
    fun data => ((htv.2 hrearranged).2 data).1⟩

end Session

end Stencil
