import Stencil.Proofs.Registration
import Stencil.Proofs.Template.Identity

/-!
# What a command does to the nodes of a session

A node of a session stays at its address until a command puts another tree there. What a command
does to the nodes is told by their addresses: each node that is found after the command was found
before it, at the address that `Command.source?` gives, or was made by it.

A node that was there before keeps its **stamp** (`Template.stamp`), that is its identity and all
that was fixed when its text was compiled. The nodes that are made get new identities, all of them
distinct. This holds of every command that is carried out (`Session.traced_of_run`). Only a clone
comes from another address than its own.
-/

namespace Stencil

/-! ### Addresses -/

theorem Address.below_iff {address node : Address} :
    address.Below node ↔ ∃ path, address = ⟨node.slot, node.path ++ path⟩ := by
  obtain ⟨slot, path⟩ := address
  refine ⟨?_, ?_⟩
  · rintro ⟨rfl, rest, rfl⟩
    exact ⟨rest, rfl⟩
  · rintro ⟨rest, heq⟩
    cases heq
    exact ⟨rfl, rest, rfl⟩

theorem Address.below_slot_iff {address : Address} {slot : String} :
    address.Below ⟨slot, []⟩ ↔ address.slot = slot :=
  and_iff_left List.nil_prefix

/-- Where the node at an address was before a command that is carried out, unless the command makes
it. A clone was where it was cloned from. -/
def Command.source? (c : Command) (address : Address) : Option Address :=
  match c with
  | .compile slot _ _ | .build slot _ => if address.Below ⟨slot, []⟩ then none else some address
  | .clone slot source =>
    if address.slot = slot then some ⟨source.slot, source.path ++ address.path⟩ else some address
  | .register target key _ =>
    if address.Below ⟨target.slot, target.path ++ [key]⟩ then none else some address

/-- The nodes of one tree come from one tree, and different ones from different ones. -/
theorem Command.source?_apart {c : Command} {a b a' b' : Address} (ha : c.source? a = some a')
    (hb : c.source? b = some b') (hslot : a.slot = b.slot) :
    a'.slot = b'.slot ∧ (a' = b' → a = b) := by
  cases c with
  | compile | build | register =>
    simp only [source?, Option.ite_none_left_eq_some, Option.some.injEq] at ha hb
    rw [← ha.2, ← hb.2]
    exact ⟨hslot, fun h => h⟩
  | clone slot source =>
    obtain ⟨slotA, pathA⟩ := a
    obtain ⟨slotB, pathB⟩ := b
    obtain rfl : slotA = slotB := hslot
    simp only [source?] at ha hb
    split at ha
    · next hmoved =>
      rw [if_pos hmoved] at hb
      rw [← Option.some.inj ha, ← Option.some.inj hb]
      refine ⟨rfl, fun h => ?_⟩
      rw [List.append_cancel_left (Address.mk.inj h).2]
    · next hstayed =>
      rw [if_neg hstayed] at hb
      rw [← Option.some.inj ha, ← Option.some.inj hb]
      exact ⟨rfl, fun h => h⟩

/-! ### What stays the same of a node -/

namespace Template

/-- A node without its variants and inner templates: its identity, its text and what was computed
from the text when it was compiled. -/
def stamp (t : Template) : Template :=
  { t with variants := [], inner := [] }

theorem map_stamp_congr {x y : Option Template} (h : x.map own = y.map own) :
    x.map stamp = y.map stamp := by
  have hstamp : stamp = (fun o : Template × List String => { o.1 with variants := [] }) ∘ own := rfl
  rw [hstamp, ← Option.map_map, h, Option.map_map]

theorem stamp_eq_iff {t u : Template} :
    t.stamp = u.stamp ↔ t.id = u.id ∧ t.text = u.text ∧ t.config = u.config ∧ t.keys = u.keys ∧
      t.size = u.size := by
  simp [stamp]

theorem id_eq_of_stamp_eq {t u : Template} (h : t.stamp = u.stamp) : t.id = u.id :=
  (stamp_eq_iff.mp h).1

variable {t i : Template} {key : String} {supply : Supply} {r : Registration}

/-- A registration leaves the nodes outside the copy what they are by themselves, but for the
variants and inner templates of the receiver. -/
theorem map_stamp_find?_register (ht : t.All Settled) (hi : i.All Settled)
    (h : t.register key i supply = .ok r) {path : List String} (hpath : ¬ [key] <+: path) :
    (r.template.find? path).map stamp = (t.find? path).map stamp := by
  rw [patch_of_register ht hi h]
  cases path with
  | nil => rfl
  | cons k path =>
    -- the inner template on the way is not the copy
    have hne : k ≠ key := by
      rintro rfl
      exact hpath (List.prefix_append [k] path)
    have hinner : (t.inner ++ [(key, r.stored)]).lookup k = t.inner.lookup k := by
      have hlast : [(key, r.stored)].lookup k = none := by
        rw [Entries.lookup_cons_eq_ite, if_neg hne.symm, List.lookup_nil]
      rw [List.lookup_append, hlast, Option.or_none]
    rw [find?_cons, find?_cons, inner?, inner?, hinner]

/-- The copy that a registration leaves behind has the identities drawn for it. -/
theorem ids_stored (ht : t.All Settled) (hi : i.All Settled)
    (h : t.register key i supply = .ok r) :
    r.stored.ids = supply.between r.supply ∧ supply.drawn ≤ r.supply.drawn := by
  obtain ⟨hids, hle⟩ := ids_register h
  rw [patch_of_register ht hi h] at hids
  -- the identities of the receiver stand before those of the copy
  have hsplit := ids_append_inner { t with variants := bindKey key t.variants } key r.stored
  have hown : ({ t with variants := bindKey key t.variants } : Template).ids = t.ids := by
    rw [ids_eq, ids_eq t]
  rw [hown] at hsplit
  exact ⟨List.append_cancel_left (hsplit.symm.trans hids), hle⟩

end Template

/-! ### One command -/

namespace Session

open Template (stamp)

theorem find?_append {s : Session} {address : Address} {t : Template}
    (h : s.find? address = some t) (path : List String) :
    s.find? ⟨address.slot, address.path ++ path⟩ = t.find? path := by
  obtain ⟨root, hroot, ht⟩ := find?_eq_some_iff.mp h
  rw [find?, hroot, Option.bind_some, Template.find?_append, ht, Option.bind_some]

theorem supply_replaceAt (s : Session) (address : Address) (t : Template) :
    (s.replaceAt address t).supply = s.supply := by
  unfold replaceAt
  split
  · rfl
  · rfl

/-- **What a command does to the nodes** of a session, by their addresses. The nodes that it does
not make have the stamps that they had, and those that it makes have identities that are drawn for
them. -/
structure Traced (s s' : Session) (c : Command) : Prop where
  drawn_le : s.supply.drawn ≤ s'.supply.drawn
  kept : ∀ {a a'}, c.source? a = some a' → (s'.find? a).map stamp = (s.find? a').map stamp
  fresh : ∀ {a n}, c.source? a = none → s'.find? a = some n →
    n.id ∈ s.supply.between s'.supply
  apart : s'.supply.drawn < 2 ^ 64 → ∀ {a b n m}, c.source? a = none → c.source? b = none →
    s'.find? a = some n → s'.find? b = some m → n.id = m.id → a = b

/-- A command that makes a tree with identities of its own, and changes no node elsewhere. -/
theorem traced_of_made {s s' : Session} {c : Command} (node : Address) (tree : Template)
    (hsource : ∀ a, c.source? a = if a.Below node then none else some a)
    (hle : s.supply.drawn ≤ s'.supply.drawn)
    (hids : tree.ids.Sublist (s.supply.between s'.supply))
    (hmade : ∀ path, s'.find? ⟨node.slot, node.path ++ path⟩ = tree.find? path)
    (haway : ∀ a : Address, ¬ a.Below node →
      (s'.find? a).map stamp = (s.find? a).map stamp) : Traced s s' c := by
  have hbelow : ∀ {a}, c.source? a = none → ∃ path, a = ⟨node.slot, node.path ++ path⟩ := by
    intro a ha
    rw [hsource, ite_eq_left_iff] at ha
    exact Address.below_iff.mp (by_contra fun h => nomatch ha h)
  refine ⟨hle, ?kept, ?fresh, ?apart⟩
  case kept =>
    intro a a' ha
    rw [hsource, Option.ite_none_left_eq_some] at ha
    obtain ⟨hout, ha⟩ := ha
    rw [← Option.some.inj ha]
    exact haway a hout
  case fresh =>
    intro a n ha hn
    obtain ⟨path, rfl⟩ := hbelow ha
    rw [hmade] at hn
    exact hids.subset (Template.id_mem_ids_of_find? hn)
  case apart =>
    intro hfew a b n m ha hb hn hm hid
    obtain ⟨path, rfl⟩ := hbelow ha
    obtain ⟨path', rfl⟩ := hbelow hb
    rw [hmade] at hn hm
    have hnodup : (s.supply.between s'.supply).Nodup := s.supply.nodup_between (by omega)
    rw [Template.path_eq_of_id_eq (hids.nodup hnodup) hn hm hid]

/-- A command that puts a new tree into a slot. -/
theorem traced_put {s : Session} {c : Command} {supply : Supply} (slot : String) (t : Template)
    (hsource : ∀ a, c.source? a = if a.Below ⟨slot, []⟩ then none else some a)
    (hids : t.ids.Sublist (s.supply.between supply)) (hle : s.supply.drawn ≤ supply.drawn) :
    Traced s ({ s with supply }.put slot t) c := by
  refine traced_of_made ⟨slot, []⟩ t hsource hle hids (fun path => ?_) fun a hout => ?_
  · rw [find?_put, if_pos rfl, List.nil_append]
  · rw [find?_put, if_neg (mt Address.below_slot_iff.mpr hout)]
    rfl

/-- A clone makes nothing: every node comes from somewhere. -/
theorem traced_clone {s : Session} {source : Address} {t : Template}
    (ht : s.find? source = some t) (slot : String) :
    Traced s (s.put slot t) (.clone slot source) := by
  have hsome : ∀ a, (Command.clone slot source).source? a ≠ none := by
    intro a
    rw [Command.source?]
    split
    · exact Option.some_ne_none _
    · exact Option.some_ne_none _
  refine ⟨Nat.le_refl _, ?_, fun ha _ => absurd ha (hsome _),
    fun _ _ _ _ _ ha _ _ _ _ => absurd ha (hsome _)⟩
  intro a a' ha
  simp only [Command.source?] at ha
  rw [find?_put]
  split at ha
  · next hslot => rw [if_pos hslot, ← Option.some.inj ha, find?_append ht]
  · next hslot => rw [if_neg hslot, ← Option.some.inj ha]

/-- A registration makes the copy. -/
theorem traced_register {s : Session} {target : Address} {t i : Template} {key : String}
    {r : Template.Registration} (ht : s.find? target = some t) (hsettled : t.All Template.Settled)
    (hi : i.All Template.Settled) (hr : t.register key i s.supply = .ok r) (inner : Address) :
    Traced s ({ s with supply := r.supply }.replaceAt target r.template)
      (.register target key inner) := by
  obtain ⟨hids, hle⟩ := Template.ids_stored hsettled hi hr
  have hstored : r.template.inner? key = some r.stored :=
    (Template.register_eq_ok_iff.mp hr).2.2.1
  -- the supply plays no part in what is found
  have ht' : ({ s with supply := r.supply } : Session).find? target = some t := ht
  have hnew := find?_replaceAt_append ht' r.template
  refine traced_of_made ⟨target.slot, target.path ++ [key]⟩ r.stored (fun a => rfl) ?le ?ids
    ?made ?away
  case le =>
    rw [supply_replaceAt]
    exact hle
  case ids => rw [supply_replaceAt, hids]
  case made =>
    intro path
    rw [List.append_assoc, hnew, List.singleton_append, Template.find?_cons, hstored,
      Option.bind_some]
  case away =>
    -- outside the copy, but maybe in the receiver
    intro a hout
    by_cases htarget : a.Below target
    · obtain ⟨path, rfl⟩ := Address.below_iff.mp htarget
      have hpath : ¬ [key] <+: path := fun hprefix =>
        hout ⟨rfl, (List.prefix_append_right_inj target.path).mpr hprefix⟩
      rw [hnew, find?_append ht]
      exact Template.map_stamp_find?_register hsettled hi hr hpath
    · exact Template.map_stamp_congr (map_own_find?_replaceAt r.template htarget)

/-- **Every command that is carried out traces the nodes**, if the templates are settled. -/
theorem traced_of_run {s s' : Session} {c : Command}
    (hsettled : ∀ {a t}, s.find? a = some t → t.All Template.Settled) (h : s.run c = .ok s') :
    Traced s s' c := by
  rcases run_cases h with ⟨slot, text, config, t, rfl, ht, rfl⟩ |
    ⟨slot, blueprint, t, supply, rfl, ht, rfl⟩ | ⟨slot, source, t, rfl, ht, rfl⟩ |
    ⟨target, key, inner, t, i, r, rfl, hi, ht, hr, rfl⟩
  · refine traced_put slot t (fun a => rfl) ?_ (Nat.le_succ _)
    rw [Template.ids_compile ht, Supply.between_draw]
  · obtain ⟨hids, hle⟩ := Blueprint.ids_build ht
    exact traced_put slot t (fun a => rfl) hids hle
  · exact traced_clone ht slot
  · exact traced_register ht (hsettled ht) (hsettled hi) hr inner

end Session

end Stencil
