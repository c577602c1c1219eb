import Stencil.Proofs.Entries
import Stencil.Template.Basic

/-!
# Templates as trees

A template is a node with its inner templates below it. Properties of templates are shown by
`Template.induction`, from the inner templates to the one around them, and `Template.All` says that
every node of a tree has a property. It is decided by going through the nodes (`Template.nodes`).

The nodes of a tree are those that the paths of keys lead to (`mem_nodes_of_find?`,
`exists_find?_of_mem_nodes`), and can be listed with them, each node once (`mem_places_iff`,
`nodup_places`). Putting a tree in the place of a node changes the nodes on the way to it only in
what is below them (`mem_inner_replaceAt`): away from the place, every node is by itself what it was
(`map_own_find?_replaceAt`).

A tree without its identities and its variants is its **bare** tree (`Template.bare`): the texts,
configurations, keys and sizes, and the keys of the inner templates in their order.
-/

namespace Stencil.Template

/-! ### Induction -/

/-- **Induction on templates**: what holds of a template whenever it holds of its inner templates
holds of all templates. -/
@[elab_as_elim] theorem induction {P : Template → Prop}
    (node : ∀ t, (∀ key i, (key, i) ∈ t.inner → P i) → P t) (t : Template) : P t := by
  -- the recursor goes through the lists of inner templates and their entries as well
  refine @Template.rec P (fun inner => ∀ key i, (key, i) ∈ inner → P i) (fun entry => P entry.2)
    ?node ?nil ?cons ?entry t
  case node =>
    intro id text config keys size variants inner ih
    exact node _ ih
  case nil =>
    intro key i hmem
    exact absurd hmem List.not_mem_nil
  case cons =>
    intro entry rest ihEntry ihRest key i hmem
    rcases List.mem_cons.mp hmem with rfl | hrest
    · exact ihEntry
    · exact ihRest key i hrest
  case entry =>
    intro key i ih
    exact ih

/-- Every node of a tree has a property. -/
inductive All (P : Template → Prop) : Template → Prop where
  | node {t : Template} (here : P t) (below : ∀ key i, (key, i) ∈ t.inner → All P i) : All P t

namespace All

variable {P Q : Template → Prop} {t n : Template}

theorem here (h : t.All P) : P t := by
  cases h with
  | node here below => exact here

theorem of_mem_inner (h : t.All P) {key : String} {i : Template} (hmem : (key, i) ∈ t.inner) :
    i.All P := by
  cases h with
  | node here below => exact below key i hmem

theorem imp (hPQ : ∀ u, P u → Q u) (h : t.All P) : t.All Q := by
  induction h with
  | node here _ ih => exact node (hPQ _ here) ih

/-- What holds of every node holds of every node below the one that a path leads to. -/
theorem of_find? {path : List String} (h : t.All P) (hn : t.find? path = some n) : n.All P := by
  induction path generalizing t with
  | nil =>
    obtain rfl : t = n := Option.some.inj hn
    exact h
  | cons key path ih =>
    rw [find?_cons, Option.bind_eq_some_iff] at hn
    obtain ⟨i, hi, hn⟩ := hn
    exact ih (h.of_mem_inner (Entries.mem_of_lookup_eq_some hi)) hn

end All

mutual

/-- The nodes of a tree, each before those below it. -/
def nodes (t : Template) : List Template :=
  match t with
  | { inner, .. } => t :: nodesInner inner

def nodesInner : List (String × Template) → List Template
  | [] => []
  | (_, t) :: rest => t.nodes ++ nodesInner rest

end

theorem nodesInner_eq_flatMap (inner : List (String × Template)) :
    nodesInner inner = inner.flatMap fun entry => entry.2.nodes := by
  induction inner with
  | nil => rw [nodesInner, List.flatMap_nil]
  | cons entry rest ih => rw [nodesInner, ih, List.flatMap_cons]

theorem nodes_eq (t : Template) : t.nodes = t :: t.inner.flatMap fun entry => entry.2.nodes := by
  cases t
  rw [nodes, nodesInner_eq_flatMap]

theorem mem_nodes {t n : Template} :
    n ∈ t.nodes ↔ n = t ∨ ∃ key i, (key, i) ∈ t.inner ∧ n ∈ i.nodes := by
  rw [nodes_eq, List.mem_cons, List.mem_flatMap, Prod.exists]

theorem all_iff_forall_mem_nodes {P : Template → Prop} {t : Template} :
    t.All P ↔ ∀ n ∈ t.nodes, P n := by
  refine ⟨?_, ?_⟩
  · intro h
    induction h with
    | node here _ ih =>
      intro n hn
      rcases mem_nodes.mp hn with rfl | ⟨key, i, hmem, hn⟩
      · exact here
      · exact ih key i hmem n hn
  · intro h
    induction t using Template.induction with
    | node t ih =>
      refine .node (h t (mem_nodes.mpr (Or.inl rfl))) fun key i hmem => ih key i hmem ?_
      exact fun n hn => h n (mem_nodes.mpr (Or.inr ⟨key, i, hmem, hn⟩))

instance {P : Template → Prop} [DecidablePred P] (t : Template) : Decidable (t.All P) :=
  decidable_of_iff _ all_iff_forall_mem_nodes.symm

/-! ### Nodes by their paths -/

theorem find?_append (t : Template) (path rest : List String) :
    t.find? (path ++ rest) = (t.find? path).bind fun n => n.find? rest := by
  induction path generalizing t with
  | nil => rfl
  | cons key path ih =>
    rw [List.cons_append, find?_cons, find?_cons, Option.bind_assoc]
    exact Option.bind_congr fun i _ => ih i

theorem mem_nodes_of_find? {t n : Template} {path : List String} (h : t.find? path = some n) :
    n ∈ t.nodes := by
  induction path generalizing t with
  | nil =>
    obtain rfl : t = n := Option.some.inj h
    exact mem_nodes.mpr (Or.inl rfl)
  | cons key path ih =>
    rw [find?_cons, Option.bind_eq_some_iff] at h
    obtain ⟨i, hi, hn⟩ := h
    exact mem_nodes.mpr (Or.inr ⟨key, i, Entries.mem_of_lookup_eq_some hi, ih hn⟩)

/-- Every node is at the end of a path, if no key is bound twice. -/
theorem exists_find?_of_mem_nodes {t n : Template} (distinct : t.All fun u => u.innerKeys.Nodup)
    (h : n ∈ t.nodes) : ∃ path, t.find? path = some n := by
  induction t using Template.induction with
  | node t ih =>
    rcases mem_nodes.mp h with rfl | ⟨key, i, hmem, hn⟩
    · exact ⟨[], rfl⟩
    · obtain ⟨path, hpath⟩ := ih key i hmem (distinct.of_mem_inner hmem) hn
      have hi : t.inner? key = some i := (Entries.lookup_eq_some_iff_mem distinct.here).mpr hmem
      exact ⟨key :: path, by rw [find?_cons, hi, Option.bind_some, hpath]⟩

mutual

/-- The nodes of a tree with the paths that lead to them. -/
def places (t : Template) : List (List String × Template) :=
  match t with
  | { inner, .. } => ([], t) :: placesInner inner

def placesInner : List (String × Template) → List (List String × Template)
  | [] => []
  | (key, t) :: rest =>
    t.places.map (fun place => (key :: place.1, place.2)) ++ placesInner rest

end

theorem placesInner_eq_flatMap (inner : List (String × Template)) :
    placesInner inner = inner.flatMap fun entry =>
      entry.2.places.map fun place => (entry.1 :: place.1, place.2) := by
  induction inner with
  | nil => rw [placesInner, List.flatMap_nil]
  | cons entry rest ih => rw [placesInner, ih, List.flatMap_cons]

theorem places_eq (t : Template) :
    t.places = ([], t) :: t.inner.flatMap fun entry =>
      entry.2.places.map fun place => (entry.1 :: place.1, place.2) := by
  cases t
  rw [places, placesInner_eq_flatMap]

/-- **The nodes are where the paths lead**, if no key is bound twice. -/
theorem mem_places_iff {t n : Template} {path : List String}
    (distinct : t.All fun u => u.innerKeys.Nodup) :
    (path, n) ∈ t.places ↔ t.find? path = some n := by
  induction t using Template.induction generalizing path with
  | node t ih =>
    rw [places_eq, List.mem_cons, List.mem_flatMap]
    simp only [List.mem_map, Prod.exists, Prod.mk.injEq]
    cases path with
    | nil =>
      -- the root, since a path into an inner template begins with its key
      simp [eq_comm]
    | cons key path =>
      have hbelow : ∀ i, (key, i) ∈ t.inner → ((path, n) ∈ i.places ↔ i.find? path = some n) :=
        fun i hmem => ih key i hmem (distinct.of_mem_inner hmem)
      simp only [find?_cons, Option.bind_eq_some_iff, inner?,
        Entries.lookup_eq_some_iff_mem distinct.here, List.cons_ne_nil, false_and, false_or]
      refine ⟨?_, ?_⟩
      · rintro ⟨k, i, hmem, p, m, hm, heq, rfl⟩
        obtain ⟨rfl, rfl⟩ := List.cons.inj heq
        exact ⟨i, hmem, (hbelow i hmem).mp hm⟩
      · rintro ⟨i, hmem, hn⟩
        exact ⟨key, i, hmem, path, n, (hbelow i hmem).mpr hn, rfl, rfl⟩

/-- **Every node is listed once**, if no key is bound twice. -/
theorem nodup_places {t : Template} (distinct : t.All fun u => u.innerKeys.Nodup) :
    (t.places.map Prod.fst).Nodup := by
  induction t using Template.induction with
  | node t ih =>
    have hpaths : t.places.map Prod.fst = [] :: t.inner.flatMap fun entry =>
        (entry.2.places.map Prod.fst).map (entry.1 :: ·) := by
      rw [places_eq, List.map_cons, List.map_flatMap]
      simp only [List.map_map, Function.comp_def]
    rw [hpaths, List.nodup_cons, List.nodup_flatMap]
    refine ⟨?_, fun entry hmem => ?_, ?_⟩
    · rw [List.mem_flatMap]
      rintro ⟨entry, -, hnil⟩
      obtain ⟨path, -, hpath⟩ := List.mem_map.mp hnil
      exact List.cons_ne_nil _ _ hpath
    · exact (ih entry.1 entry.2 hmem (distinct.of_mem_inner hmem)).map List.cons_injective
    · -- paths that begin with different keys differ
      refine (List.pairwise_map.mp distinct.here).imp fun {entry other} hne => ?_
      intro path hpath hpath'
      obtain ⟨p, -, rfl⟩ := List.mem_map.mp hpath
      obtain ⟨q, -, heq⟩ := List.mem_map.mp hpath'
      exact hne (List.cons.inj heq).1.symm

/-! ### Putting a tree in the place of a node -/

variable {t new : Template} {key : String} {path : List String}

theorem replaceAt_cons (t new : Template) (key : String) (path : List String) :
    t.replaceAt (key :: path) new = { t with
      inner := t.inner.map fun entry =>
        if entry.1 = key then (key, entry.2.replaceAt path new) else entry } := rfl

theorem innerKeys_replaceAt_cons :
    (t.replaceAt (key :: path) new).innerKeys = t.innerKeys := by
  rw [replaceAt_cons]
  simp only [innerKeys, List.map_map]
  -- an entry that is changed keeps its key
  refine List.map_congr_left fun entry _ => ?_
  by_cases h : entry.1 = key
  · simp [h]
  · simp [h]

/-- An inner template after a replacement below it: the one that the path leads through was
replaced in, the others are as they were. -/
theorem mem_inner_replaceAt {k : String} {j : Template}
    (h : (k, j) ∈ (t.replaceAt (key :: path) new).inner) :
    (k ≠ key ∧ (k, j) ∈ t.inner) ∨
      ∃ i, k = key ∧ (key, i) ∈ t.inner ∧ j = i.replaceAt path new := by
  rw [replaceAt_cons] at h
  obtain ⟨⟨k', i⟩, hmem, heq⟩ := List.mem_map.mp h
  by_cases hk : k' = key
  · subst hk
    rw [if_pos rfl, Prod.mk.injEq] at heq
    exact Or.inr ⟨i, heq.1.symm, hmem, heq.2.symm⟩
  · rw [if_neg hk, Prod.mk.injEq] at heq
    obtain ⟨rfl, rfl⟩ := heq
    exact Or.inl ⟨hk, hmem⟩

theorem inner?_replaceAt_cons (t new : Template) (key : String) (path : List String)
    (k : String) :
    (t.replaceAt (key :: path) new).inner? k =
      if k = key then (t.inner? k).map fun i => i.replaceAt path new else t.inner? k := by
  rw [replaceAt_cons, inner?, inner?]
  induction t.inner with
  | nil => simp
  | cons entry rest ih =>
    obtain ⟨k', i⟩ := entry
    rw [List.map_cons, Entries.lookup_cons_eq_ite]
    by_cases hk' : k' = key
    · subst hk'
      rw [if_pos rfl, Entries.lookup_cons_eq_ite, ih]
      by_cases hk : k' = k
      · rw [if_pos hk, if_pos hk, if_pos hk.symm, Option.map_some]
      · rw [if_neg hk, if_neg hk]
    · rw [if_neg hk', Entries.lookup_cons_eq_ite, ih]
      by_cases hk : k' = k
      · subst hk
        rw [if_pos rfl, if_pos rfl, if_neg hk']
      · rw [if_neg hk, if_neg hk]

/-- Below the place where a tree was put stands what is in that tree. -/
theorem find?_replaceAt_append {n : Template} (h : t.find? path = some n) (rest : List String) :
    (t.replaceAt path new).find? (path ++ rest) = new.find? rest := by
  induction path generalizing t with
  | nil => rfl
  | cons key path ih =>
    rw [find?_cons, Option.bind_eq_some_iff] at h
    obtain ⟨i, hi, hn⟩ := h
    rw [List.cons_append, find?_cons, inner?_replaceAt_cons, if_pos rfl, hi, Option.map_some,
      Option.bind_some]
    exact ih hn

/-- A replacement inside a tree that was put in place is one in that tree. -/
theorem replaceAt_replaceAt_append (t new : Template) (path rest : List String)
    (other : Template) :
    (t.replaceAt path new).replaceAt (path ++ rest) other =
      t.replaceAt path (new.replaceAt rest other) := by
  induction path generalizing t with
  | nil => rfl
  | cons key path ih =>
    rw [List.cons_append, replaceAt_cons, replaceAt_cons, replaceAt_cons]
    simp only [List.map_map]
    congr 1
    refine List.map_congr_left fun entry _ => ?_
    by_cases h : entry.1 = key
    · simp [h, ih]
    · simp [h]

/-- What stands in a place already can be put there, if no key is bound twice. -/
theorem replaceAt_self {n : Template} (distinct : t.All fun u => u.innerKeys.Nodup)
    (h : t.find? path = some n) : t.replaceAt path n = t := by
  induction path generalizing t with
  | nil => exact (Option.some.inj h).symm
  | cons key path ih =>
    rw [find?_cons, Option.bind_eq_some_iff] at h
    obtain ⟨i, hi, hn⟩ := h
    have hmem := Entries.mem_of_lookup_eq_some hi
    have hsame : (t.inner.map fun entry =>
        if entry.1 = key then (key, entry.2.replaceAt path n) else entry) = t.inner := by
      refine (List.map_congr_left (g := fun entry => entry) fun entry hentry => ?_).trans
        (List.map_id' t.inner)
      obtain ⟨k, j⟩ := entry
      by_cases hk : k = key
      · subst hk
        obtain rfl : j = i := Entries.eq_of_mem distinct.here hentry hmem
        rw [if_pos rfl, ih (distinct.of_mem_inner hmem) hn]
      · rw [if_neg hk]
    rw [replaceAt_cons, hsame]
    cases t
    rfl

/-- Putting a tree in the place of the last inner template. -/
theorem replaceAt_append_inner (hkey : key ∉ t.innerKeys) (old new : Template) :
    ({ t with inner := t.inner ++ [(key, old)] } : Template).replaceAt [key] new =
      { t with inner := t.inner ++ [(key, new)] } := by
  have hothers : (t.inner.map fun entry =>
      if entry.1 = key then (key, entry.2.replaceAt [] new) else entry) = t.inner := by
    refine (List.map_congr_left (g := fun entry => entry) fun entry hentry => ?_).trans
      (List.map_id' t.inner)
    have hne : entry.1 ≠ key := by
      rintro rfl
      exact hkey (List.mem_map.mpr ⟨entry, hentry, rfl⟩)
    rw [if_neg hne]
  rw [replaceAt_cons]
  simp only [List.map_append, List.map_cons, List.map_nil, if_true, replaceAt_nil] at hothers ⊢
  rw [hothers]

/-- A node by itself: what it is without the trees below it, and their keys. -/
def own (t : Template) : Template × List String :=
  ({ t with inner := [] }, t.innerKeys)

/-- **A replacement is local**: nodes that are not in the tree replaced are by themselves what they
were. -/
theorem map_own_find?_replaceAt {other : List String} (h : ¬ path <+: other) :
    ((t.replaceAt path new).find? other).map own = (t.find? other).map own := by
  induction path generalizing t other with
  | nil => exact absurd List.nil_prefix h
  | cons key path ih =>
    cases other with
    | nil =>
      -- a node on the way keeps its own fields and the keys of its inner templates
      have hkeys : (t.replaceAt (key :: path) new).innerKeys = t.innerKeys :=
        innerKeys_replaceAt_cons
      simp only [find?_nil, Option.map_some, own, hkeys]
      rfl
    | cons k other =>
      rw [find?_cons, find?_cons, inner?_replaceAt_cons]
      by_cases hk : k = key
      · subst hk
        have hrest : ¬ path <+: other := fun hprefix => h (List.cons_prefix_cons.mpr ⟨rfl, hprefix⟩)
        rw [if_pos rfl]
        cases t.inner? k with
        | none => rfl
        | some i => exact ih hrest
      · rw [if_neg hk]

/-! ### Trees without identities and variants -/

mutual

/-- Changes every node of a tree, the inner templates first. -/
def mapNodes (f : Template → Template) (t : Template) : Template :=
  match t with
  | { inner, .. } => f { t with inner := mapNodesInner f inner }

def mapNodesInner (f : Template → Template) : List (String × Template) → List (String × Template)
  | [] => []
  | (key, t) :: rest => (key, t.mapNodes f) :: mapNodesInner f rest

end

theorem mapNodesInner_eq_map (f : Template → Template) (inner : List (String × Template)) :
    mapNodesInner f inner = inner.map fun entry => (entry.1, entry.2.mapNodes f) := by
  induction inner with
  | nil => rw [mapNodesInner, List.map_nil]
  | cons entry rest ih => rw [mapNodesInner, ih, List.map_cons]

theorem mapNodes_eq (f : Template → Template) (t : Template) :
    t.mapNodes f =
      f { t with inner := t.inner.map fun entry => (entry.1, entry.2.mapNodes f) } := by
  cases t
  rw [mapNodes, mapNodesInner_eq_map]

/-- The tree without its identities and its variants. -/
def bare (t : Template) : Template :=
  t.mapNodes fun n => { n with id := ⟨0⟩, variants := [] }

theorem bare_eq (t : Template) :
    t.bare = { t with
      id := ⟨0⟩
      variants := []
      inner := t.inner.map fun entry => (entry.1, entry.2.bare) } :=
  mapNodes_eq _ t

end Stencil.Template
