import Stencil.Proofs.Template.Faults
import Stencil.Proofs.Template.Identity
import Stencil.Proofs.Template.Patch

/-!
# What a building finds

A building meets the faults of its blueprint in their order and stops at the first one. Without
faults it gives the template that the blueprint describes (`Blueprint.build_stopsAt`). It meets no
faults of its own: an inner template is settled when it is registered, so a registration fails
because of its key only.

One thing has to be kept from happening. A registration is refused if the two templates have one
identity, and a supply repeats itself after `2 ^ 64` identities. So it is assumed that there are
enough of them for the building (`Blueprint.draws`).
-/

namespace Stencil

open Outcome (StopsAt)

namespace Template

variable {t u i : Template} {key : String} {supply : Supply}

/-! ### Skeletons and what is drawn for them -/

/-- Identities and variants are not in the skeleton. -/
theorem skeleton_bare (t : Template) : t.bare.skeleton = t.skeleton := by
  induction t using Template.induction with
  | node t ih =>
    rw [bare_eq, skeleton_eq, skeleton_eq t, Skeleton.mk.injEq, List.map_map]
    refine ⟨rfl, rfl, List.map_congr_left fun entry hmem => ?_⟩
    exact Prod.ext rfl (ih entry.1 entry.2 hmem)

theorem skeleton_eq_of_bare_eq (h : t.bare = u.bare) : t.skeleton = u.skeleton := by
  rw [← skeleton_bare t, h, skeleton_bare]

theorem length_ids (t : Template) : t.ids.length = t.skeleton.blueprint.count := by
  induction t using Template.induction with
  | node t ih =>
    have hinner : (t.inner.map fun entry => entry.2.ids.length) =
        t.inner.map fun entry => entry.2.skeleton.blueprint.count :=
      List.map_congr_left fun entry hmem => ih entry.1 entry.2 hmem
    rw [ids_eq, List.length_cons, List.length_flatMap, hinner, skeleton_eq,
      Skeleton.blueprint_eq, Blueprint.count_eq, Blueprint.countInner_eq_sum, List.map_map,
      List.map_map, Nat.add_comm]
    rfl

theorem keys_blueprint (t : Template) :
    t.skeleton.blueprint.inner.map Prod.fst = t.innerKeys := by
  rw [Skeleton.blueprint_eq, List.map_map, ← keys_inner_skeleton]
  rfl

/-- A template with one more inner template, seen as a blueprint. -/
theorem blueprint_append_inner {b inner : Blueprint} (ht : t.skeleton.blueprint = b)
    (hi : i.skeleton.blueprint = inner) (variants : List (Nat × List Section)) :
    ({ t with variants, inner := t.inner ++ [(key, i)] } : Template).skeleton.blueprint =
      b.addInner key inner := by
  rw [skeleton_eq, Skeleton.blueprint_eq] at ht
  rw [skeleton_eq, Skeleton.blueprint_eq, ← ht, Blueprint.addInner]
  simp only [List.map_append, List.map_cons, List.map_nil, hi]

/-- Relabelling draws as many identities as there are nodes. -/
theorem drawn_relabel (t : Template) (supply : Supply) :
    (t.relabel supply).2.drawn = supply.drawn + t.skeleton.blueprint.count := by
  obtain ⟨hids, hle⟩ := ids_relabel t supply
  have hlength := congrArg List.length hids
  rw [length_ids, skeleton_eq_of_bare_eq (bare_relabel t supply), Supply.between, List.length_map,
    List.length_range'] at hlength
  omega

/-! ### One step -/

/-- Compiling stops at what is wrong with the text. -/
theorem compile_stopsAt (text : String) (config : Config) (id : Identity) :
    StopsAt (fun t => t.skeleton = ⟨text, config, []⟩ ∧ t.columns = [0] ∧ t.id = id)
      (Blueprint.sourceFaults (some text)) (compile text config id) := by
  rw [compile, Blueprint.sourceFaults]
  split
  · exact .error _ _
  · cases Section.parse text with
    | error fault => exact .error fault []
    | ok sections => exact .ok ⟨skeleton_eq _, rfl, rfl⟩

/-- Registering stops at what is wrong with the key. -/
theorem register_stopsAt (ht : t.All Settled) (hi : i.All Settled) (hself : i.id ≠ t.id)
    (key : String) (supply : Supply) :
    StopsAt (fun r => r.stored.bare = i.bare ∧ r.supply = (i.relabel supply).2)
      (Blueprint.keyFaults t.innerKeys key) (t.register key i supply) := by
  unfold Blueprint.keyFaults
  by_cases hblank : Text.trim key = ""
  · rw [if_pos (String.isEmpty_iff.mpr hblank), register_of_refuses (.blankKey hblank)]
    exact .error _ _
  · rw [if_neg (mt String.isEmpty_iff.mp hblank), List.nil_append]
    by_cases htaken : key ∈ t.innerKeys
    · rw [if_pos htaken, register_of_refuses (.takenKey hblank hself htaken)]
      exact .error _ _
    · rw [if_neg htaken]
      obtain ⟨stored, hregister, hbare⟩ :=
        register_of_settled ht hi hblank hself htaken supply
      rw [hregister]
      exact .ok ⟨hbare, rfl⟩

end Template

namespace Blueprint

open Template (Settled)

/-- What a building without faults gives, with the supply that is left. -/
structure Built (b : Blueprint) (supply : Supply) (result : Template × Supply) : Prop where
  settled : result.1.All Settled
  columns : result.1.columns = [0]
  /-- The texts, the configurations and the keys in their order are those of the blueprint. -/
  described : result.1.skeleton.blueprint = b
  drawn : result.2.drawn = supply.drawn + b.draws
  id_mem : result.1.id ∈ supply.between result.2

variable {b : Blueprint} {supply : Supply} {t : Template} {s : Supply}

theorem Built.innerKeys_eq (h : b.Built supply (t, s)) : t.innerKeys = b.inner.map Prod.fst := by
  rw [← h.described, Template.keys_blueprint]

theorem Built.drawn_le (h : b.Built supply (t, s)) : supply.drawn ≤ s.drawn := by
  have hdrawn : s.drawn = supply.drawn + b.draws := h.drawn
  omega

theorem draws_addInner (b : Blueprint) (key : String) (inner : Blueprint) :
    (b.addInner key inner).draws = b.draws + (inner.draws + inner.count) := by
  rw [draws_eq, draws_eq b, addInner, drawsInner_eq_sum, drawsInner_eq_sum, List.map_append,
    List.sum_append, List.map_singleton, List.sum_singleton, Nat.add_assoc]

/-- **One more inner template**: what is built is the blueprint with one more inner blueprint. -/
theorem Built.register {key : String} {inner : Blueprint} {i : Template} {s' : Supply}
    {r : Template.Registration} (ht : b.Built supply (t, s)) (hi : inner.Built s (i, s'))
    (hr : t.register key i s' = .ok r) (hbare : r.stored.bare = i.bare)
    (hsupply : r.supply = (i.relabel s').2) :
    (b.addInner key inner).Built supply (r.template, r.supply) := by
  obtain ⟨hsettled, hcolumns⟩ := Template.all_settled_register ht.settled hi.settled hr
  have hpatch := Template.patch_of_register ht.settled hi.settled hr
  -- the copy that is stored has identities of its own
  have hdrawn : r.supply.drawn = s'.drawn + inner.count := by
    rw [hsupply, Template.drawn_relabel, hi.described]
  have hdrawn₁ : s.drawn = supply.drawn + b.draws := ht.drawn
  have hdrawn₂ : s'.drawn = s.drawn + inner.draws := hi.drawn
  refine ⟨hsettled, hcolumns.trans ht.columns, ?described, ?drawn, ?id_mem⟩
  case described =>
    have hstored : r.stored.skeleton.blueprint = inner := by
      rw [Template.skeleton_eq_of_bare_eq hbare, hi.described]
    rw [hpatch]
    exact Template.blueprint_append_inner ht.described hstored _
  case drawn =>
    rw [draws_addInner]
    show r.supply.drawn = _
    omega
  case id_mem =>
    -- the receiver keeps its identity, which was drawn before all others
    have hid : r.template.id = t.id := by rw [hpatch]
    have hle : s.drawn ≤ r.supply.drawn := by omega
    show r.template.id ∈ supply.between r.supply
    rw [hid, ← Supply.between_append ht.drawn_le hle]
    exact List.mem_append_left _ ht.id_mem

/-- Inner blueprints are built one after another, each before its key is looked at. -/
theorem buildInner_stopsAt {entries : List (String × Blueprint)}
    (hbuild : ∀ key i, (key, i) ∈ entries → i.draws ≤ 2 ^ 64 →
      ∀ s : Supply, StopsAt (i.Built s) i.faults (i.build s)) (ht : b.Built supply (t, s))
    (hfew : b.draws + drawsInner entries ≤ 2 ^ 64) :
    StopsAt (Built { b with inner := b.inner ++ entries } supply)
      (faultsInner (b.inner.map Prod.fst) entries) (buildInner entries t s) := by
  induction entries generalizing b t s with
  | nil =>
    cases b
    rw [faultsInner, buildInner, List.append_nil]
    exact .ok ht
  | cons entry rest ih =>
    obtain ⟨key, i⟩ := entry
    rw [drawsInner] at hfew
    rw [faultsInner, buildInner]
    refine (hbuild key i List.mem_cons_self (by omega) s).bind fun result hresult hi => ?_
    obtain ⟨i', s'⟩ := result
    have hs : s.drawn = supply.drawn + b.draws := ht.drawn
    have hs' : s'.drawn = s.drawn + i.draws := hi.drawn
    -- the identity of the inner template was drawn after that of the receiver
    have hself : i'.id ≠ t.id := by
      intro heq
      have hi' := hi.id_mem
      rw [heq] at hi'
      exact Supply.disjoint_between ht.drawn_le hi.drawn_le (by omega) ht.id_mem hi'
    rw [← ht.innerKeys_eq]
    refine (Template.register_stopsAt ht.settled hi.settled hself key s').bind
      fun r hr hpatched => ?_
    obtain ⟨hbare, hsupply⟩ := hpatched
    -- the template has grown by one key, and the rest goes on from there
    have hgrown := ht.register hi hr hbare hsupply
    have hrest := ih (fun key i hmem => hbuild key i (List.mem_cons_of_mem _ hmem)) hgrown
      (by rw [draws_addInner]; omega)
    rw [ht.innerKeys_eq]
    rw [addInner, List.map_append, List.append_assoc] at hrest
    exact hrest

/-- **A building stops at the first fault of the blueprint.** If there is none, the template that is
built is the one that the blueprint describes. -/
theorem build_stopsAt (b : Blueprint) (hfew : b.draws ≤ 2 ^ 64) (supply : Supply) :
    StopsAt (b.Built supply) b.faults (b.build supply) := by
  induction b using Blueprint.induction generalizing supply with
  | node b ih =>
    obtain ⟨source, config, inner⟩ := b
    cases source with
    | none =>
      rw [faults, build]
      exact .error _ _
    | some text =>
      rw [draws] at hfew
      rw [faults, build]
      refine (Template.compile_stopsAt text config supply.draw.1).bind fun t ht h => ?_
      obtain ⟨hskeleton, hcolumns, hid⟩ := h
      have hleaf : Built { source := some text, config } supply (t, supply.draw.2) := by
        refine ⟨Template.all_settled_compile ht, hcolumns, ?_, rfl, ?_⟩
        · rw [hskeleton, Skeleton.blueprint_eq]
          rfl
        · rw [Supply.between_draw, hid]
          exact List.mem_singleton_self _
      exact buildInner_stopsAt (fun key i hmem => ih key i hmem) hleaf hfew

end Blueprint

end Stencil
