import Stencil.Proofs.Origin
import Stencil.Proofs.Template.Assembly
import Stencil.Proofs.Template.Building

/-!
# Building by hand

What a blueprint describes can be built by hand. One way goes from the top down
(`Blueprint.topDown`): each text is compiled into a slot aside and registered at its place in the
tree, and the copy that stands there is completed in the same way before the next one.

A building goes the other way, as every inner template is complete when it is registered. The result
is the same but for identities. That is part of the main statement, `Blueprint.build_outcome`, which
says when a building succeeds, what it gives, and which fault it reports if it does not.
-/

namespace Stencil

/-! ### Top-down -/

namespace Blueprint

mutual

/-- The commands that complete the template at a path, which has its text and nothing below it. -/
def complete (slot aside : String) (path : List String) (b : Blueprint) : List Command :=
  match b with
  | { inner, .. } => completeInner slot aside path inner

def completeInner (slot aside : String) (path : List String) :
    List (String × Blueprint) → List Command
  | [] => []
  | (key, b) :: rest =>
    .compile aside (b.source.getD "") b.config :: .register ⟨slot, path⟩ key ⟨aside, []⟩ ::
      (b.complete slot aside (path ++ [key]) ++ completeInner slot aside path rest)

end

/-- The commands that build a blueprint in a slot by hand, from the top down. -/
def topDown (slot aside : String) (b : Blueprint) : List Command :=
  .compile slot (b.source.getD "") b.config :: b.complete slot aside []

end Blueprint

namespace Session

open Template (bindKey)

/-- A text that can be read is compiled into its slot. -/
theorem run_compile {s : Session} {text : String} {sections : List Section}
    (hempty : text ≠ "") (hparse : Section.parse text = .ok sections) (slot : String)
    (config : Config) :
    ∃ t, s.run (.compile slot text config) = .ok ({ s with supply := s.supply.draw.2 }.put slot t) ∧
      t.All Template.Settled ∧ t.skeleton = ⟨text, config, []⟩ ∧ t.columns = [0] ∧
        t.id = s.supply.draw.1 := by
  have hfaults : Blueprint.sourceFaults (some text) = [] :=
    Blueprint.sourceFaults_eq_nil_iff.mpr ⟨text, sections, rfl, hempty, hparse⟩
  have hstops := Template.compile_stopsAt text config s.supply.draw.1
  obtain ⟨t, ht⟩ := hstops.exists_ok_iff.mpr hfaults
  refine ⟨t, ?_, Template.all_settled_compile ht, hstops.of_eq_ok ht⟩
  simp only [run, ht]
  rfl

variable {commands : List Command} {slot aside : String} {path : List String} {root n : Template}
  {key : String} {drawn : Nat}

/-- The next identity is not that of a template that is there. -/
theorem draw_ne_id {address : Address} (h : (ofCommands commands).find? address = some n)
    (hfew : (ofCommands commands).supply.drawn + 1 < 2 ^ 64) :
    (ofCommands commands).supply.draw.1 ≠ n.id := by
  have hissued : n.id ∈ Supply.between {} (ofCommands commands).supply := by
    have hsound := Chronicle.sound_ofCommands (Nat.lt_of_succ_lt hfew)
    rw [← Chronicle.session_ofCommands] at h ⊢
    exact hsound.issued h
  have hdrawn : (ofCommands commands).supply.draw.1 ∈
      (ofCommands commands).supply.between (ofCommands commands).supply.draw.2 := by
    rw [Supply.between_draw]
    exact List.mem_singleton_self _
  intro heq
  rw [heq] at hdrawn
  refine Supply.disjoint_between (Nat.zero_le _) (Nat.le_succ _) ?_ hissued hdrawn
  exact Nat.le_add_left_of_le hfew.le

/-- The tree in a slot, and how many identities were drawn. -/
structure Holds (s : Session) (slot : String) (root : Template) (drawn : Nat) : Prop where
  root : s.slots.lookup slot = some root
  drawn : s.supply.drawn = drawn

/-- A text is compiled aside and registered at its place. -/
theorem exists_compile_register (hslot : slot ≠ aside)
    (hroot : (ofCommands commands).Holds slot root drawn) (hn : root.find? path = some n)
    {text : String} {sections : List Section} (hempty : text ≠ "")
    (hparse : Section.parse text = .ok sections) (hvisible : Text.trim key ≠ "")
    (hfree : key ∉ n.innerKeys) (hfew : drawn + 2 < 2 ^ 64) (config : Config) :
    ∃ stored, stored.skeleton = ⟨text, config, []⟩ ∧
      (ofCommands (commands ++ [.compile aside text config,
        .register ⟨slot, path⟩ key ⟨aside, []⟩])).Holds slot (root.replaceAt path { n with
          variants := bindKey key n.variants
          inner := n.inner ++ [(key, stored)] }) (drawn + 2) := by
  obtain ⟨hroot, rfl⟩ := hroot
  have hfound : (ofCommands commands).find? ⟨slot, path⟩ = some n :=
    find?_eq_some_iff.mpr ⟨root, hroot, hn⟩
  obtain ⟨i, hrun, hi, hskeleton, -, hid⟩ :=
    run_compile (s := ofCommands commands) hempty hparse aside config
  have hself : i.id ≠ n.id := by
    rw [hid]
    exact draw_ne_id hfound (Nat.lt_of_succ_lt hfew)
  -- between the two commands the text stands aside, and the slot is as it was
  generalize hs : ({ ofCommands commands with
    supply := (ofCommands commands).supply.draw.2 } : Session).put aside i = s at hrun
  have hdrawn : s.supply.drawn = (ofCommands commands).supply.drawn + 1 := by
    rw [← hs]
    rfl
  have hroot' : s.slots.lookup slot = some root := by
    rw [← hs, put, Entries.lookup_insert_of_ne hslot]
    exact hroot
  have haside : s.find? ⟨aside, []⟩ = some i := by
    rw [← hs, find?_put, if_pos rfl, Template.find?_nil]
  have hreceiver : s.find? ⟨slot, path⟩ = some n := find?_eq_some_iff.mpr ⟨root, hroot', hn⟩
  obtain ⟨stored, hregister, hbare⟩ := Template.register_of_settled
    (all_settled_of_find? hfound) hi hvisible hself hfree s.supply
  have hrun' := run_register hreceiver haside key
  rw [hregister] at hrun'
  have happend : commands ++ [.compile aside text config, .register ⟨slot, path⟩ key ⟨aside, []⟩] =
      (commands ++ [.compile aside text config]) ++ [.register ⟨slot, path⟩ key ⟨aside, []⟩] := by
    rw [List.append_assoc, List.singleton_append]
  refine ⟨stored, (Template.skeleton_eq_of_bare_eq hbare).trans hskeleton, ?_⟩
  rw [happend, ofCommands_concat, ofCommands_concat, after_of_ok hrun, after_of_ok hrun']
  refine ⟨?root, ?drawn⟩
  case root => simp only [replaceAt, hroot', put, Entries.lookup_insert_self]
  case drawn =>
    rw [supply_replaceAt, Template.drawn_relabel, hskeleton, Skeleton.blueprint_eq,
      Blueprint.count_eq, hdrawn]
    rfl

/-- **What commands do at a path**: wherever a template stands there that is described by `start`,
one that is described by `b` stands there behind the commands, for the same columns, and nothing
else in the tree has changed. -/
def Completes (slot : String) (path : List String) (more : List Command) (start b : Blueprint)
    (draws : Nat) : Prop :=
  ∀ commands root n drawn, (ofCommands commands).Holds slot root drawn →
    root.find? path = some n → n.skeleton.blueprint = start → drawn + draws < 2 ^ 64 →
    ∃ n', n'.skeleton.blueprint = b ∧ n'.columns = n.columns ∧
      (ofCommands (commands ++ more)).Holds slot (root.replaceAt path n') (drawn + draws)

theorem Completes.nil (b : Blueprint) : Completes slot path [] b b 0 := by
  intro commands root n drawn hroot hn hb _
  have hfound : (ofCommands commands).find? ⟨slot, []⟩ = some root :=
    find?_eq_some_iff.mpr ⟨root, hroot.root, rfl⟩
  have hdistinct : root.All fun u => u.innerKeys.Nodup :=
    (all_settled_of_find? hfound).imp fun _ h => h.declared.distinct
  refine ⟨n, hb, rfl, ?_⟩
  rw [Template.replaceAt_self hdistinct hn, List.append_nil]
  exact hroot

theorem Completes.append {more more' : List Command} {start middle b : Blueprint}
    {draws draws' : Nat} (h : Completes slot path more start middle draws)
    (h' : Completes slot path more' middle b draws') :
    Completes slot path (more ++ more') start b (draws + draws') := by
  intro commands root n drawn hroot hn hstart hfew
  obtain ⟨n₁, hmiddle, hcolumns, hroot₁⟩ := h commands root n drawn hroot hn hstart (by omega)
  have hn₁ : (root.replaceAt path n₁).find? (path ++ []) = some n₁ :=
    Template.find?_replaceAt_append hn []
  rw [List.append_nil] at hn₁
  obtain ⟨n₂, hb, hcolumns', hroot₂⟩ := h' _ _ n₁ _ hroot₁ hn₁ hmiddle (by omega)
  refine ⟨n₂, hb, hcolumns'.trans hcolumns, ?_⟩
  -- what was put there first is replaced
  have hreplace := Template.replaceAt_replaceAt_append root n₁ path [] n₂
  rw [List.append_nil, Template.replaceAt_nil] at hreplace
  rwa [hreplace, List.append_assoc, Nat.add_assoc] at hroot₂

/-- **One more inner template**: its text is put in its place and completed there. -/
theorem Completes.addInner {more : List Command} {start i : Blueprint} {draws : Nat}
    (hslot : slot ≠ aside) (hi : i.Fit) (hvisible : Text.trim key ≠ "")
    (hfree : key ∉ start.inner.map Prod.fst)
    (h : Completes slot (path ++ [key]) more { i with inner := [] } i draws) :
    Completes slot path (.compile aside (i.source.getD "") i.config ::
      .register ⟨slot, path⟩ key ⟨aside, []⟩ :: more) start (start.addInner key i)
        (2 + draws) := by
  intro commands root n drawn hroot hn hstart hfew
  obtain ⟨text, sections, htext, hempty, hparse⟩ := hi.source
  have hkeys : key ∉ n.innerKeys := by
    rwa [← hstart, Template.keys_blueprint] at hfree
  obtain ⟨stored, hstored, hroot₁⟩ := exists_compile_register hslot hroot hn hempty hparse hvisible
    hkeys (by omega) i.config
  have hplace : (root.replaceAt path { n with
      variants := bindKey key n.variants
      inner := n.inner ++ [(key, stored)] }).find? (path ++ [key]) = some stored := by
    rw [Template.find?_replaceAt_append hn, Template.find?_cons, Template.inner?,
      Template.lookup_append_inner hkeys]
    rfl
  have hleaf : stored.skeleton.blueprint = { i with inner := [] } := by
    rw [hstored, Skeleton.blueprint_eq, htext, List.map_nil]
  -- the copy in the tree is completed, and not the template that stands aside
  obtain ⟨i', hi', -, hroot₂⟩ := h _ _ stored _ hroot₁ hplace hleaf (by omega)
  refine ⟨{ n with variants := bindKey key n.variants, inner := n.inner ++ [(key, i')] },
    Template.blueprint_append_inner hstart hi' _, ?_, ?_⟩
  · simp [Template.columns, bindKey, Function.comp_def]
  · have hlast := Template.replaceAt_append_inner
      (t := { n with variants := bindKey key n.variants }) hkeys stored i'
    rw [Template.replaceAt_replaceAt_append, hlast, List.append_assoc, Nat.add_assoc] at hroot₂
    rw [htext]
    exact hroot₂

/-- **Completing a blueprint in its place**, whatever is around it. -/
theorem completes_complete (hslot : slot ≠ aside) {b : Blueprint} (hfit : b.All Blueprint.Fit)
    (path : List String) :
    Completes slot path (b.complete slot aside path) { b with inner := [] } b
      (2 * Blueprint.countInner b.inner) := by
  induction b using Blueprint.induction generalizing path with
  | node b ih =>
    -- the inner blueprints that are left come behind those that stand there already
    suffices hleft : ∀ entries : List (String × Blueprint), entries ⊆ b.inner →
        ∀ start : Blueprint, (start.inner.map Prod.fst ++ entries.map Prod.fst).Nodup →
          Completes slot path (Blueprint.completeInner slot aside path entries) start
            { start with inner := start.inner ++ entries }
            (2 * Blueprint.countInner entries) by
      obtain ⟨source, config, inner⟩ := b
      rw [Blueprint.complete]
      exact hleft inner (List.Subset.refl _) { source, config } hfit.here.distinct
    intro entries
    induction entries with
    | nil =>
      intro _ start _
      cases start
      rw [Blueprint.completeInner, Blueprint.countInner, List.append_nil]
      exact .nil _
    | cons entry rest ihRest =>
      intro hsub start hdistinct
      obtain ⟨key, i⟩ := entry
      obtain ⟨hmem, hrest⟩ := List.cons_subset.mp hsub
      have hi := hfit.of_mem_inner hmem
      have hvisible : Text.trim key ≠ "" :=
        hfit.here.visible key (List.mem_map.mpr ⟨(key, i), hmem, rfl⟩)
      rw [List.map_cons, List.append_cons] at hdistinct
      have hfree : key ∉ start.inner.map Prod.fst := fun hkey =>
        List.disjoint_of_nodup_append hdistinct.of_append_left hkey (List.mem_singleton_self key)
      have hkeys : ((start.addInner key i).inner.map Prod.fst ++ rest.map Prod.fst).Nodup := by
        rw [Blueprint.addInner, List.map_append]
        exact hdistinct
      -- first the key and all that is below it, then the keys that are left
      have hcompletes := (Completes.addInner hslot hi.here hvisible hfree
        (ih key i hmem hi (path ++ [key]))).append (ihRest hrest _ hkeys)
      have hdraws : 2 * (i.count + Blueprint.countInner rest) =
          2 + 2 * Blueprint.countInner i.inner + 2 * Blueprint.countInner rest := by
        rw [Blueprint.count_eq]
        omega
      rw [Blueprint.completeInner, Blueprint.countInner, hdraws,
        List.append_cons start.inner (key, i) rest]
      exact hcompletes

/-- **A blueprint without faults can be built by hand**, in any slot. -/
theorem exists_topDown (hslot : slot ≠ aside) {b : Blueprint} (hfit : b.All Blueprint.Fit)
    (hfew : b.draws ≤ 2 ^ 64) :
    ∃ t, (ofCommands (b.topDown slot aside)).find? ⟨slot, []⟩ = some t ∧
      t.skeleton.blueprint = b ∧ t.columns = [0] := by
  obtain ⟨text, sections, htext, hempty, hparse⟩ := hfit.here.source
  obtain ⟨t, hrun, -, hskeleton, hcolumns, -⟩ :=
    run_compile (s := {}) hempty hparse slot b.config
  have hroot : (ofCommands [.compile slot text b.config]).Holds slot t 1 := by
    have hafter : ofCommands [.compile slot text b.config] = _ := after_of_ok hrun
    rw [hafter]
    exact ⟨Entries.lookup_insert_self _ _ _, rfl⟩
  have hleaf : t.skeleton.blueprint = { b with inner := [] } := by
    rw [hskeleton, Skeleton.blueprint_eq, htext, List.map_nil]
  have hdraws := Blueprint.two_mul_count_le b
  rw [Blueprint.count_eq] at hdraws
  obtain ⟨t', hb, hcolumns', hroot'⟩ := completes_complete hslot hfit [] _ t t 1 hroot
    (Template.find?_nil t) hleaf (by omega)
  refine ⟨t', ?_, hb, hcolumns'.trans hcolumns⟩
  rw [Blueprint.topDown, htext]
  exact find?_eq_some_iff.mpr ⟨t', hroot'.root, rfl⟩

end Session

/-! ### What a building gives -/

namespace Blueprint

/-- **What a building gives**, as long as it does not draw so many identities that they repeat:

* it succeeds exactly when every node has a text that is not empty and can be read, no key is blank,
  and no key of a node is given twice;
* then the texts, the configurations and the keys in their order are those of the blueprint, and the
  template is, but for identities, what is built by hand from the top down, in any slot, or by any
  other commands that end with the same texts and keys in place;
* if it fails, the fault is the first one of the blueprint. -/
theorem build_outcome (b : Blueprint) (supply : Supply) (hfew : b.draws ≤ 2 ^ 64) :
    ((∃ t rest, b.build supply = .ok (t, rest)) ↔ b.All Fit) ∧
    (∀ t rest, b.build supply = .ok (t, rest) → t.skeleton.blueprint = b ∧
      (∀ slot aside, slot ≠ aside →
        ∃ u, (Session.ofCommands (b.topDown slot aside)).find? ⟨slot, []⟩ = some u ∧
          u.anonymous = t.anonymous) ∧
      ∀ commands address u, (Session.ofCommands commands).find? address = some u →
        u.columns = [0] → u.skeleton = t.skeleton → u.anonymous = t.anonymous) ∧
    ∀ fault, b.build supply = .error fault ↔ b.faults.head? = some fault := by
  have hstops := build_stopsAt b hfew supply
  have hok : (∃ t rest, b.build supply = .ok (t, rest)) ↔ b.All Fit := by
    rw [← faults_eq_nil_iff, ← hstops.exists_ok_iff, Prod.exists]
  refine ⟨hok, fun t rest ht => ?_, fun fault => hstops.eq_error_iff⟩
  obtain ⟨hsettled, hcolumns, hdescribed, -, -⟩ := hstops.of_eq_ok ht
  have hsame : ∀ commands address u, (Session.ofCommands commands).find? address = some u →
      u.columns = [0] → u.skeleton = t.skeleton → u.anonymous = t.anonymous := by
    intro commands address u hu hroot hskeleton
    exact Template.anonymous_eq_of_skeleton_eq (Session.all_settled_of_find? hu) hsettled
      (hroot.trans hcolumns.symm) hskeleton
  refine ⟨hdescribed, fun slot aside hslot => ?_, hsame⟩
  obtain ⟨u, hu, hb, hroot⟩ := Session.exists_topDown hslot (hok.mp ⟨t, rest, ht⟩) hfew
  exact ⟨u, hu, hsame _ _ u hu hroot (Skeleton.eq_of_blueprint_eq (hb.trans hdescribed.symm))⟩

/-- A page with a list, and an item in the list. -/
def page : Blueprint :=
  { source := some "<ul>\n  {{list}}\n</ul>"
    inner := [("list", {
      source := some "<li>\n  {{item}}\n</li>"
      inner := [("item", { source := some "{{value}}" })] })] }

/-- A blueprint with faults in three inner blueprints. -/
def faulty : Blueprint :=
  { source := some "{{a}}"
    inner := [("a", { source := some "x" }), (" ", { source := some "\x7b\x7bopen" }), ("a", {})] }

theorem build_outcome_page :
    ∃ t rest u, page.build {} = .ok (t, rest) ∧ t.skeleton.blueprint = page ∧
      (Session.ofCommands (page.topDown "page" "aside")).find? ⟨"page", []⟩ = some u ∧
        u.anonymous = t.anonymous ∧
      faulty.faults = [.parse (.unterminated "\x7b\x7bopen" ⟨0, 0⟩), .binding .blankKey,
        .parse .noSource, .binding (.takenKey "a")] ∧
      faulty.build {} = .error (.parse (.unterminated "\x7b\x7bopen" ⟨0, 0⟩)) := by
  have hbuilt : (page.build {}).toBool = true := by decide +kernel
  obtain ⟨⟨t, rest⟩, ht⟩ := Outcome.exists_of_toBool hbuilt
  have hfaults : faulty.faults = [.parse (.unterminated "\x7b\x7bopen" ⟨0, 0⟩),
      .binding .blankKey, .parse .noSource, .binding (.takenKey "a")] := by
    decide +kernel
  obtain ⟨hdescribed, hbyHand, -⟩ := (build_outcome page {} (by decide)).2.1 t rest ht
  obtain ⟨u, hu, hsame⟩ := hbyHand "page" "aside" (by decide)
  have hfirst := ((build_outcome faulty {} (by decide)).2.2
    (.parse (.unterminated "\x7b\x7bopen" ⟨0, 0⟩))).mpr (by rw [hfaults]; rfl)
  exact ⟨t, rest, u, ht, hdescribed, hu, hsame, hfaults, hfirst⟩

end Blueprint

end Stencil
