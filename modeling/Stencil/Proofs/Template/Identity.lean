import Mathlib.Data.List.Nodup
import Mathlib.Data.List.Pairwise
import Stencil.Proofs.Template.Blueprint
import Stencil.Proofs.Template.Rebuild

/-!
# The identities of a tree

Identities come from a supply, so the new ones among them are known from the supply before and the
supply after (`Supply.between`). As long as no more than `2 ^ 64` are drawn, all of them are
distinct (`Supply.nodup_between`).

The identities of a tree (`Template.ids`) are listed with the nodes that they belong to.

* Compiling, relabelling and building give identities that are drawn in doing so (`ids_compile`,
  `ids_relabel`, `Blueprint.ids_build`).
* Rebuilding leaves them alone (`ids_rebuild`), and a registration adds those of the copy
  (`ids_register`).

That they are distinct is to say that a node is known by its identity: two paths to nodes with one
identity are the same path (`path_eq_of_id_eq`, `nodup_ids`).
-/

namespace Stencil

/-! ### Supplies -/

/-- The identities that were drawn from a supply until another one was left. -/
def Supply.between (s s' : Supply) : List Identity :=
  (List.range' (s.drawn + 1) (s'.drawn - s.drawn)).map fun n => ⟨UInt64.ofNat n⟩

namespace Supply

@[simp] theorem between_draw (s : Supply) : s.between s.draw.2 = [s.draw.1] := by
  rw [between, draw_snd, Nat.add_sub_cancel_left]
  rfl

theorem between_append {s s' s'' : Supply} (h : s.drawn ≤ s'.drawn) (h' : s'.drawn ≤ s''.drawn) :
    s.between s' ++ s'.between s'' = s.between s'' := by
  have hmid : s'.drawn + 1 = s.drawn + 1 + (s'.drawn - s.drawn) := by omega
  have hend : s''.drawn - s.drawn = s'.drawn - s.drawn + (s''.drawn - s'.drawn) := by omega
  rw [between, between, between, hmid, hend, ← List.map_append, List.range'_append_1]

/-- **Identities do not repeat** as long as there are no more of them than words. -/
theorem nodup_between (s : Supply) {s' : Supply} (h : s'.drawn ≤ s.drawn + 2 ^ 64) :
    (s.between s').Nodup := by
  refine List.Nodup.map_on ?_ List.nodup_range'
  intro m hm n hn heq
  rw [List.mem_range'_1] at hm hn
  have hword := congrArg UInt64.toNat (Identity.mk.inj heq)
  rw [UInt64.toNat_ofNat', UInt64.toNat_ofNat'] at hword
  omega

/-- What is drawn later is not what was drawn before. -/
theorem disjoint_between {s s' s'' : Supply} (h : s.drawn ≤ s'.drawn) (h' : s'.drawn ≤ s''.drawn)
    (hfew : s''.drawn ≤ s.drawn + 2 ^ 64) : (s.between s').Disjoint (s'.between s'') := by
  have hnodup := s.nodup_between hfew
  rw [← between_append h h'] at hnodup
  exact List.disjoint_of_nodup_append hnodup

end Supply

namespace Template

/-! ### Identities by node -/

/-- The identities of the nodes of a tree. -/
def ids (t : Template) : List Identity :=
  t.nodes.map Template.id

theorem ids_eq (t : Template) : t.ids = t.id :: t.inner.flatMap fun entry => entry.2.ids := by
  rw [ids, nodes_eq, List.map_cons, List.map_flatMap]
  rfl

variable {t i n m : Template} {key : String} {path path' : List String}

theorem id_mem_ids_of_find? (h : t.find? path = some n) : n.id ∈ t.ids :=
  List.mem_map.mpr ⟨n, mem_nodes_of_find? h, rfl⟩

theorem id_mem_flatMap_ids (hi : t.inner? key = some i) (h : i.find? path = some n) :
    n.id ∈ t.inner.flatMap fun entry => entry.2.ids :=
  List.mem_flatMap.mpr ⟨(key, i), Entries.mem_of_lookup_eq_some hi, id_mem_ids_of_find? h⟩

theorem entry_eq_of_mem_ids {entries : List (String × Template)}
    (hnodup : (entries.flatMap fun entry => entry.2.ids).Nodup) {e e' : String × Template}
    (he : e ∈ entries) (he' : e' ∈ entries) {a : Identity} (ha : a ∈ e.2.ids)
    (ha' : a ∈ e'.2.ids) : e = e' := by
  by_contra hne
  have hapart := (List.nodup_flatMap.mp hnodup).2
  have : Std.Symm (Function.onFun List.Disjoint fun entry : String × Template => entry.2.ids) :=
    ⟨fun _ _ h _ hb hc => h hc hb⟩
  exact hapart.forall he he' hne ha ha'

/-- **A node is known by its identity** in a tree with distinct identities. -/
theorem path_eq_of_id_eq (hnodup : t.ids.Nodup) (hn : t.find? path = some n)
    (hm : t.find? path' = some m) (hid : n.id = m.id) : path = path' := by
  induction path generalizing t path' with
  | nil =>
    obtain rfl : t = n := Option.some.inj hn
    cases path' with
    | nil => rfl
    | cons key path' =>
      -- the root has an identity that no node below it has
      rw [find?_cons, Option.bind_eq_some_iff] at hm
      obtain ⟨i, hi, hm⟩ := hm
      rw [ids_eq, List.nodup_cons, hid] at hnodup
      exact absurd (id_mem_flatMap_ids hi hm) hnodup.1
  | cons key path ih =>
    rw [find?_cons, Option.bind_eq_some_iff] at hn
    obtain ⟨i, hi, hn⟩ := hn
    rw [ids_eq, List.nodup_cons] at hnodup
    cases path' with
    | nil =>
      obtain rfl : t = m := Option.some.inj hm
      rw [← hid] at hnodup
      exact absurd (id_mem_flatMap_ids hi hn) hnodup.1
    | cons key' path' =>
      rw [find?_cons, Option.bind_eq_some_iff] at hm
      obtain ⟨j, hj, hm⟩ := hm
      have hid' : n.id ∈ j.ids := by
        rw [hid]
        exact id_mem_ids_of_find? hm
      -- below two inner templates there are no equal identities
      have heq := entry_eq_of_mem_ids hnodup.2 (Entries.mem_of_lookup_eq_some hi)
        (Entries.mem_of_lookup_eq_some hj) (id_mem_ids_of_find? hn) hid'
      obtain ⟨rfl, rfl⟩ := Prod.mk.inj heq
      have hbelow := (List.nodup_flatMap.mp hnodup.2).1 _ (Entries.mem_of_lookup_eq_some hi)
      rw [ih hbelow hn hm]

/-- **The identities of a tree are distinct** when its nodes are known by them. -/
theorem nodup_ids (distinct : t.All fun u => u.innerKeys.Nodup)
    (h : ∀ path path' n m, t.find? path = some n → t.find? path' = some m → n.id = m.id →
      path = path') : t.ids.Nodup := by
  induction t using Template.induction with
  | node t ih =>
    have hinner : ∀ {key i}, (key, i) ∈ t.inner → t.inner? key = some i := fun hmem =>
      (Entries.lookup_eq_some_iff_mem distinct.here).mpr hmem
    -- an identity of an inner template is that of a node at the end of a path
    have hpath : ∀ {key i a}, (key, i) ∈ t.inner → a ∈ i.ids →
        ∃ path n, t.find? (key :: path) = some n ∧ n.id = a := by
      intro key i a hmem ha
      obtain ⟨n, hn, rfl⟩ := List.mem_map.mp ha
      obtain ⟨path, hpath⟩ := exists_find?_of_mem_nodes (distinct.of_mem_inner hmem) hn
      exact ⟨path, n, by rw [find?_cons, hinner hmem, Option.bind_some, hpath], rfl⟩
    rw [ids_eq, List.nodup_cons, List.nodup_flatMap]
    refine ⟨?root, ?below, ?apart⟩
    case root =>
      intro hmem
      obtain ⟨⟨key, i⟩, hmem, ha⟩ := List.mem_flatMap.mp hmem
      obtain ⟨path, n, hn, hid⟩ := hpath hmem ha
      cases h _ [] n t hn rfl hid
    case below =>
      rintro ⟨key, i⟩ hmem
      refine ih key i hmem (distinct.of_mem_inner hmem) fun path path' n m hn hm hid => ?_
      have hcons : ∀ {path n}, i.find? path = some n → t.find? (key :: path) = some n := by
        intro path n hn
        rw [find?_cons, hinner hmem, Option.bind_some, hn]
      exact (List.cons.inj (h _ _ n m (hcons hn) (hcons hm) hid)).2
    case apart =>
      have hkeys : t.inner.Pairwise fun entry entry' => entry.1 ≠ entry'.1 :=
        List.pairwise_map.mp distinct.here
      refine hkeys.imp_of_mem fun {entry entry'} hmem hmem' hne a ha ha' => ?_
      obtain ⟨path, n, hn, hid⟩ := hpath hmem ha
      obtain ⟨path', m, hm, hid'⟩ := hpath hmem' ha'
      exact hne (List.cons.inj (h _ _ n m hn hm (hid.trans hid'.symm))).1

/-! ### Identities of what is made -/

variable {supply : Supply}

theorem ids_compile {text : String} {config : Config} {id : Identity}
    (h : compile text config id = .ok t) : t.ids = [id] := by
  unfold compile at h
  split at h
  · cases h
  · obtain ⟨sections, -, heq⟩ := Outcome.bind_eq_ok_iff.mp h
    obtain rfl := Outcome.pure_eq_ok_iff.mp heq
    rw [ids_eq, List.flatMap_nil]

theorem relabelInner_cons (key : String) (i : Template) (rest : List (String × Template))
    (supply : Supply) :
    relabelInner ((key, i) :: rest) supply =
      ((key, (i.relabel supply).1) :: (relabelInner rest (i.relabel supply).2).1,
        (relabelInner rest (i.relabel supply).2).2) := by
  rw [relabelInner]

/-- **A relabelled tree has the identities drawn for it**, in the order of its nodes. -/
theorem ids_relabel (t : Template) (supply : Supply) :
    (t.relabel supply).1.ids = supply.between (t.relabel supply).2 ∧
      supply.drawn ≤ (t.relabel supply).2.drawn := by
  induction t using Template.induction generalizing supply with
  | node t ih =>
    -- the inner templates draw one after another
    have hinner : ∀ entries : List (String × Template), entries ⊆ t.inner → ∀ s : Supply,
        ((relabelInner entries s).1.flatMap fun entry => entry.2.ids) =
          s.between (relabelInner entries s).2 ∧ s.drawn ≤ (relabelInner entries s).2.drawn := by
      intro entries
      induction entries with
      | nil =>
        intro _ s
        rw [relabelInner, List.flatMap_nil, Supply.between, Nat.sub_self]
        exact ⟨rfl, Nat.le_refl _⟩
      | cons entry rest ihRest =>
        intro hsub s
        obtain ⟨key, i⟩ := entry
        obtain ⟨hmem, hrest⟩ := List.cons_subset.mp hsub
        obtain ⟨hids, hle⟩ := ih key i hmem s
        obtain ⟨hidsRest, hleRest⟩ := ihRest hrest (i.relabel s).2
        rw [relabelInner_cons, List.flatMap_cons, hids, hidsRest,
          Supply.between_append hle hleRest]
        exact ⟨rfl, Nat.le_trans hle hleRest⟩
    obtain ⟨hids, hle⟩ := hinner t.inner (List.Subset.refl _) supply.draw.2
    have hdraw : supply.drawn ≤ supply.draw.2.drawn := Nat.le_succ _
    rw [relabel_eq, ids_eq, hids, ← Supply.between_append hdraw hle, Supply.between_draw]
    exact ⟨rfl, Nat.le_trans hdraw hle⟩

theorem ids_rebuild {t' : Template} {columns : List Nat} (h : t.rebuild columns = .ok t') :
    t'.ids = t.ids := by
  induction t using Template.induction generalizing columns t' with
  | node t ih =>
    obtain ⟨variants, inner, -, hinner, rfl⟩ := rebuild_eq_ok_iff.mp h
    have hids := Lists.map_eq_map_of_forall₂ (rebuildInner_eq_ok_iff.mp hinner)
      (f := fun entry => entry.2.ids) (g := fun entry => entry.2.ids) ?_
    · rw [ids_eq, ids_eq, List.flatMap_def, List.flatMap_def, hids]
    · rintro ⟨key, i⟩ hmem _ - ⟨i', hi', rfl⟩
      exact ih key i hmem hi'

theorem ids_append_inner (t : Template) (key : String) (i : Template) :
    ({ t with inner := t.inner ++ [(key, i)] } : Template).ids = t.ids ++ i.ids := by
  rw [ids_eq, ids_eq t, List.flatMap_append, List.flatMap_singleton, List.cons_append]

/-- **A registration adds the identities of the copy**, which are drawn for it. -/
theorem ids_register {r : Registration} (h : t.register key i supply = .ok r) :
    r.template.ids = t.ids ++ supply.between r.supply ∧ supply.drawn ≤ r.supply.drawn := by
  obtain ⟨-, hrebuild, -, hsupply⟩ := register_eq_ok_iff.mp h
  obtain ⟨hids, hle⟩ := ids_relabel i supply
  rw [ids_rebuild hrebuild, ids_append_inner, hsupply, hids]
  exact ⟨rfl, hle⟩

end Template

/-- **The identities of a tree that is built** are among those drawn for it, which include those of
the inner templates before they were registered. -/
theorem Blueprint.ids_build {b : Blueprint} {supply supply' : Supply} {t : Template}
    (h : b.build supply = .ok (t, supply')) :
    t.ids.Sublist (supply.between supply') ∧ supply.drawn ≤ supply'.drawn := by
  refine build_induction (P := fun s t s' => t.ids.Sublist (s.between s') ∧ s.drawn ≤ s'.drawn)
    ?compiled ?registered h
  case compiled =>
    intro text config s t ht
    rw [Template.ids_compile ht, Supply.between_draw]
    exact ⟨List.Sublist.refl _, Nat.le_succ _⟩
  case registered =>
    intro s t s₁ key i s₂ r ht hi hr
    obtain ⟨hids, hle⟩ := Template.ids_register hr
    have hle₁ : s.drawn ≤ s₂.drawn := Nat.le_trans ht.2 hi.2
    -- the identities of the inner template before its registration are drawn and not used
    rw [hids, ← Supply.between_append hle₁ hle, ← Supply.between_append ht.2 hi.2]
    have hids₁ := ht.1.trans (List.sublist_append_left _ (s₁.between s₂))
    exact ⟨hids₁.append (List.Sublist.refl _), Nat.le_trans hle₁ hle⟩

end Stencil
