import Mathlib.Algebra.BigOperators.Ring.List
import Mathlib.Algebra.Order.BigOperators.Group.List
import Mathlib.Algebra.Order.Ring.Nat
import Mathlib.Data.List.Nodup
import Stencil.Proofs.Template.Blueprint
import Stencil.Proofs.Template.Skeleton

/-!
# The faults of a blueprint

All that can be wrong with a blueprint can be told from the blueprint alone (`Blueprint.faults`): a
text that is missing, empty or left in the middle of a placeholder, at any node, and a key that is
blank or given twice. The list is in the order in which a building meets these faults, the faults of
an inner blueprint before those of its key. It is empty exactly when every node is fit to be built
(`Blueprint.faults_eq_nil_iff`).

The blueprint of what has been built is read off its skeleton (`Skeleton.blueprint`).
-/

namespace Stencil

namespace Blueprint

/-! ### Faults, depth first -/

/-- What is wrong with the text of a node. -/
def sourceFaults : Option String → List Fault
  | none => [.parse .noSource]
  | some text =>
    if text.isEmpty then [.parse .emptyText]
    else
      match Section.parse text with
      | .ok _ => []
      | .error fault => [fault]

/-- What is wrong with the key of an inner blueprint that comes behind others. -/
def keyFaults (before : List String) (key : String) : List Fault :=
  (if (Text.trim key).isEmpty then [.binding .blankKey] else []) ++
    if key ∈ before then [.binding (.takenKey key)] else []

mutual

/-- All that is wrong with a blueprint: first its text, then one after another its inner blueprints,
each before its key. -/
def faults (b : Blueprint) : List Fault :=
  match b with
  | { source, inner, .. } => sourceFaults source ++ faultsInner [] inner

/-- What is wrong with inner blueprints that come behind others. -/
def faultsInner (before : List String) : List (String × Blueprint) → List Fault
  | [] => []
  | (key, b) :: rest =>
    b.faults ++ (keyFaults before key ++ faultsInner (before ++ [key]) rest)

end

theorem faults_eq (b : Blueprint) : b.faults = sourceFaults b.source ++ faultsInner [] b.inner := by
  cases b
  rw [faults]

/-! ### Blueprints without faults -/

/-- A node that can be built. -/
structure Fit (b : Blueprint) : Prop where
  source : ∃ text sections, b.source = some text ∧ text ≠ "" ∧ Section.parse text = .ok sections
  visible : ∀ key ∈ b.inner.map Prod.fst, Text.trim key ≠ ""
  distinct : (b.inner.map Prod.fst).Nodup

/-- Every node of a blueprint has a property. -/
inductive All (P : Blueprint → Prop) : Blueprint → Prop where
  | node {b : Blueprint} (here : P b) (below : ∀ key i, (key, i) ∈ b.inner → All P i) : All P b

theorem All.here {P : Blueprint → Prop} {b : Blueprint} (h : b.All P) : P b := by
  cases h with
  | node here below => exact here

theorem All.of_mem_inner {P : Blueprint → Prop} {b i : Blueprint} (h : b.All P) {key : String}
    (hmem : (key, i) ∈ b.inner) : i.All P := by
  cases h with
  | node here below => exact below key i hmem

theorem sourceFaults_eq_nil_iff {source : Option String} :
    sourceFaults source = [] ↔
      ∃ text sections, source = some text ∧ text ≠ "" ∧ Section.parse text = .ok sections := by
  cases source with
  | none => simp [sourceFaults]
  | some text =>
    rw [sourceFaults]
    by_cases hempty : text = ""
    · simp [hempty]
    · rw [if_neg (mt String.isEmpty_iff.mp hempty)]
      cases hparse : Section.parse text with
      | error fault => simp [hparse]
      | ok sections => simp [hempty, hparse]

theorem keyFaults_eq_nil_iff {before : List String} {key : String} :
    keyFaults before key = [] ↔ Text.trim key ≠ "" ∧ key ∉ before := by
  rw [keyFaults, List.append_eq_nil_iff]
  refine and_congr ?_ ?_
  · rw [ite_eq_right_iff, String.isEmpty_iff]
    simp
  · simp

theorem faultsInner_eq_nil_iff {before : List String} {inner : List (String × Blueprint)}
    (hbefore : before.Nodup) :
    faultsInner before inner = [] ↔
      (∀ key i, (key, i) ∈ inner → i.faults = []) ∧
        (∀ key ∈ inner.map Prod.fst, Text.trim key ≠ "") ∧
          (before ++ inner.map Prod.fst).Nodup := by
  induction inner generalizing before with
  | nil => simpa [faultsInner] using hbefore
  | cons entry rest ih =>
    obtain ⟨key, b⟩ := entry
    have hcons : before ++ key :: rest.map Prod.fst = before ++ [key] ++ rest.map Prod.fst := by
      rw [List.append_assoc, List.singleton_append]
    rw [faultsInner, List.append_eq_nil_iff, List.append_eq_nil_iff, keyFaults_eq_nil_iff,
      List.map_cons, List.forall_mem_cons, hcons]
    refine ⟨?_, ?_⟩
    · rintro ⟨hb, ⟨hvisible, hfree⟩, hrest⟩
      have hnodup : (before ++ [key]).Nodup := by
        rw [← List.concat_eq_append]
        exact hbefore.concat hfree
      obtain ⟨hfaults, hkeys, hdistinct⟩ := (ih hnodup).mp hrest
      refine ⟨fun k i hmem => ?_, ⟨hvisible, hkeys⟩, hdistinct⟩
      rcases List.mem_cons.mp hmem with heq | hmem
      · obtain ⟨-, rfl⟩ := Prod.mk.inj heq
        exact hb
      · exact hfaults k i hmem
    · rintro ⟨hfaults, ⟨hvisible, hkeys⟩, hdistinct⟩
      have hnodup : (before ++ [key]).Nodup := hdistinct.of_append_left
      have hfree : key ∉ before := fun hmem =>
        List.disjoint_of_nodup_append hnodup hmem (List.mem_singleton_self key)
      refine ⟨hfaults key b List.mem_cons_self, ⟨hvisible, hfree⟩, (ih hnodup).mpr ⟨?_, hkeys,
        hdistinct⟩⟩
      exact fun k i hmem => hfaults k i (List.mem_cons_of_mem _ hmem)

/-- **A blueprint without faults** has a readable text and good keys at every node. -/
theorem faults_eq_nil_iff {b : Blueprint} : b.faults = [] ↔ b.All Fit := by
  induction b using Blueprint.induction with
  | node b ih =>
    rw [faults_eq, List.append_eq_nil_iff, sourceFaults_eq_nil_iff,
      faultsInner_eq_nil_iff List.nodup_nil, List.nil_append]
    refine ⟨?_, ?_⟩
    · rintro ⟨hsource, hfaults, hvisible, hdistinct⟩
      exact .node ⟨hsource, hvisible, hdistinct⟩ fun key i hmem =>
        (ih key i hmem).mp (hfaults key i hmem)
    · intro h
      obtain ⟨hsource, hvisible, hdistinct⟩ := h.here
      exact ⟨hsource, fun key i hmem => (ih key i hmem).mpr (h.of_mem_inner hmem), hvisible,
        hdistinct⟩

/-! ### How much is drawn -/

mutual

/-- The number of nodes. -/
def count (b : Blueprint) : Nat :=
  match b with
  | { inner, .. } => 1 + countInner inner

def countInner : List (String × Blueprint) → Nat
  | [] => 0
  | (_, b) :: rest => b.count + countInner rest

end

mutual

/-- How many identities a building draws: one for each node, and one more whenever a node is copied
by a registration, of its own tree or of one around it. -/
def draws (b : Blueprint) : Nat :=
  match b with
  | { inner, .. } => 1 + drawsInner inner

def drawsInner : List (String × Blueprint) → Nat
  | [] => 0
  | (_, b) :: rest => b.draws + b.count + drawsInner rest

end

theorem countInner_eq_sum (inner : List (String × Blueprint)) :
    countInner inner = (inner.map fun entry => entry.2.count).sum := by
  induction inner with
  | nil => rfl
  | cons entry rest ih => rw [countInner, ih, List.map_cons, List.sum_cons]

theorem drawsInner_eq_sum (inner : List (String × Blueprint)) :
    drawsInner inner = (inner.map fun entry => entry.2.draws + entry.2.count).sum := by
  induction inner with
  | nil => rfl
  | cons entry rest ih => rw [drawsInner, ih, List.map_cons, List.sum_cons]

theorem count_eq (b : Blueprint) : b.count = 1 + countInner b.inner := by
  cases b
  rw [count]

theorem draws_eq (b : Blueprint) : b.draws = 1 + drawsInner b.inner := by
  cases b
  rw [draws]

/-- Every node but the root is copied. -/
theorem two_mul_count_le (b : Blueprint) : 2 * b.count ≤ b.draws + 1 := by
  induction b using Blueprint.induction with
  | node b ih =>
    have hone : ∀ entry ∈ b.inner, 2 * entry.2.count ≤ entry.2.draws + entry.2.count := by
      intro entry hmem
      have hi := ih entry.1 entry.2 hmem
      have hpos := count_eq entry.2
      omega
    have hinner : 2 * countInner b.inner ≤ drawsInner b.inner :=
      calc 2 * countInner b.inner
          = (b.inner.map fun entry => 2 * entry.2.count).sum := by
            rw [countInner_eq_sum, List.sum_map_mul_left]
        _ ≤ (b.inner.map fun entry => entry.2.draws + entry.2.count).sum := List.sum_le_sum hone
        _ = drawsInner b.inner := (drawsInner_eq_sum b.inner).symm
    rw [count_eq, draws_eq]
    omega

end Blueprint

/-! ### The blueprint of what is there -/

namespace Skeleton

mutual

/-- The blueprint that describes a skeleton. -/
def blueprint (s : Skeleton) : Blueprint :=
  match s with
  | { text, config, inner } => { source := some text, config, inner := blueprintInner inner }

def blueprintInner : List (String × Skeleton) → List (String × Blueprint)
  | [] => []
  | (key, s) :: rest => (key, s.blueprint) :: blueprintInner rest

end

theorem blueprintInner_eq_map (inner : List (String × Skeleton)) :
    blueprintInner inner = inner.map fun entry => (entry.1, entry.2.blueprint) := by
  induction inner with
  | nil => rw [blueprintInner, List.map_nil]
  | cons entry rest ih => rw [blueprintInner, ih, List.map_cons]

theorem blueprint_eq (s : Skeleton) :
    s.blueprint = {
      source := some s.text
      config := s.config
      inner := s.inner.map fun entry => (entry.1, entry.2.blueprint) } := by
  cases s
  rw [blueprint, blueprintInner_eq_map]

mutual

/-- Different skeletons have different blueprints. -/
theorem eq_of_blueprint_eq : ∀ {s u : Skeleton}, s.blueprint = u.blueprint → s = u
  | ⟨text, config, inner⟩, ⟨text', config', inner'⟩, h => by
    rw [blueprint, blueprint, Blueprint.mk.injEq, Option.some_inj] at h
    obtain ⟨rfl, rfl, hinner⟩ := h
    rw [eq_of_blueprintInner_eq hinner]

theorem eq_of_blueprintInner_eq : ∀ {inner inner' : List (String × Skeleton)},
    blueprintInner inner = blueprintInner inner' → inner = inner'
  | [], [], _ => rfl
  | [], _ :: _, h => by
    rw [blueprintInner, blueprintInner] at h
    exact absurd h (List.cons_ne_nil _ _).symm
  | _ :: _, [], h => by
    rw [blueprintInner, blueprintInner] at h
    exact absurd h (List.cons_ne_nil _ _)
  | (key, s) :: rest, (key', u) :: rest', h => by
    rw [blueprintInner, blueprintInner, List.cons.injEq, Prod.mk.injEq] at h
    obtain ⟨⟨rfl, hs⟩, hrest⟩ := h
    rw [eq_of_blueprint_eq hs, eq_of_blueprintInner_eq hrest]

end

end Skeleton

end Stencil
