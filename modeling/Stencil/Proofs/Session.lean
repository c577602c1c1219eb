import Stencil.Proofs.Template.Blueprint
import Stencil.Proofs.Template.Variants
import Stencil.Session

/-!
# Templates that can be made

Every template that can be made is in a session that comes from a run of commands. What a single
command does is said once (`Session.run_cases`), and what every command keeps holds after every run
(`Session.ofCommands_induction`).

All templates that can be made are settled, at every node (`Session.all_settled_of_find?`). The main
statement spells out what that means for a node and its inner templates
(`Session.variants_fit_of_find?`).
-/

namespace Stencil

/-- The address is that of a node or of one below it. -/
def Address.Below (address node : Address) : Prop :=
  address.slot = node.slot ∧ node.path <+: address.path

instance (address node : Address) : Decidable (address.Below node) :=
  inferInstanceAs (Decidable (_ ∧ _))

namespace Session

/-- **What a command does** when it is carried out. -/
theorem run_cases {s s' : Session} {c : Command} (h : s.run c = .ok s') :
    (∃ slot text config t, c = .compile slot text config ∧
      Template.compile text config s.supply.draw.1 = .ok t ∧
        s' = { s with supply := s.supply.draw.2 }.put slot t) ∨
    (∃ slot blueprint t supply, c = .build slot blueprint ∧
      blueprint.build s.supply = .ok (t, supply) ∧ s' = { s with supply }.put slot t) ∨
    (∃ slot source t, c = .clone slot source ∧ s.find? source = some t ∧ s' = s.put slot t) ∨
    (∃ target key inner t i r, c = .register target key inner ∧ s.find? inner = some i ∧
      s.find? target = some t ∧ t.register key i s.supply = .ok r ∧
        s' = { s with supply := r.supply }.replaceAt target r.template) := by
  -- a template that has to be there is there
  have hfind : ∀ {address t}, s.find address = .ok t → s.find? address = some t := by
    intro address t hfound
    unfold find at hfound
    split at hfound
    · next hsome => exact hsome.trans (congrArg some (Except.ok.inj hfound))
    · cases hfound
  cases c with
  | compile slot text config =>
    obtain ⟨t, ht, heq⟩ := Outcome.bind_eq_ok_iff.mp h
    exact Or.inl ⟨slot, text, config, t, rfl, Outcome.mapError_eq_ok_iff.mp ht,
      Outcome.pure_eq_ok_iff.mp heq⟩
  | build slot blueprint =>
    obtain ⟨⟨t, supply⟩, ht, heq⟩ := Outcome.bind_eq_ok_iff.mp h
    exact Or.inr (Or.inl ⟨slot, blueprint, t, supply, rfl, Outcome.mapError_eq_ok_iff.mp ht,
      Outcome.pure_eq_ok_iff.mp heq⟩)
  | clone slot source =>
    obtain ⟨t, ht, heq⟩ := Outcome.bind_eq_ok_iff.mp h
    exact Or.inr (Or.inr (Or.inl ⟨slot, source, t, rfl, hfind ht, Outcome.pure_eq_ok_iff.mp heq⟩))
  | register target key inner =>
    obtain ⟨i, hi, h⟩ := Outcome.bind_eq_ok_iff.mp h
    obtain ⟨t, ht, h⟩ := Outcome.bind_eq_ok_iff.mp h
    obtain ⟨r, hr, heq⟩ := Outcome.bind_eq_ok_iff.mp h
    exact Or.inr (Or.inr (Or.inr ⟨target, key, inner, t, i, r, rfl, hfind hi, hfind ht,
      Outcome.mapError_eq_ok_iff.mp hr, Outcome.pure_eq_ok_iff.mp heq⟩))

theorem after_of_ok {s s' : Session} {c : Command} (h : s.run c = .ok s') : s.after c = s' := by
  rw [after, h]

theorem ofCommands_concat (commands : List Command) (c : Command) :
    ofCommands (commands ++ [c]) = (ofCommands commands).after c := by
  rw [ofCommands, List.foldl_append, List.foldl_cons, List.foldl_nil, ofCommands]

/-- **What every command keeps** holds after every run. -/
theorem ofCommands_induction {P : Session → Prop} (start : P {})
    (step : ∀ s c s', P s → s.run c = .ok s' → P s') (commands : List Command) :
    P (ofCommands commands) := by
  induction commands using List.reverseRecOn with
  | nil => exact start
  | append_singleton rest c ih =>
    rw [ofCommands_concat, after]
    -- a refused command changes nothing
    split
    · next s' hrun => exact step _ c s' ih hrun
    · exact ih

/-! ### Slots -/

theorem lookup_put {s : Session} {slot name : String} {t u : Template}
    (h : (s.put slot t).slots.lookup name = some u) :
    u = t ∨ s.slots.lookup name = some u := by
  by_cases hname : name = slot
  · subst hname
    rw [put, Entries.lookup_insert_self] at h
    exact Or.inl (Option.some.inj h).symm
  · rw [put, Entries.lookup_insert_of_ne hname] at h
    exact Or.inr h

theorem find?_eq_some_iff {s : Session} {address : Address} {t : Template} :
    s.find? address = some t ↔
      ∃ root, s.slots.lookup address.slot = some root ∧ root.find? address.path = some t :=
  Option.bind_eq_some_iff

theorem find?_put (s : Session) (slot : String) (t : Template) (address : Address) :
    (s.put slot t).find? address =
      if address.slot = slot then t.find? address.path else s.find? address := by
  rw [find?, put]
  by_cases h : address.slot = slot
  · rw [h, if_pos rfl, Entries.lookup_insert_self, Option.bind_some]
  · rw [if_neg h, Entries.lookup_insert_of_ne h, find?]

/-- After a replacement, what is put at an address is found below it. -/
theorem find?_replaceAt_append {s : Session} {target : Address} {t : Template}
    (h : s.find? target = some t) (new : Template) (rest : List String) :
    (s.replaceAt target new).find? ⟨target.slot, target.path ++ rest⟩ = new.find? rest := by
  obtain ⟨root, hroot, ht⟩ := find?_eq_some_iff.mp h
  rw [replaceAt, hroot, find?_put, if_pos rfl]
  exact Template.find?_replaceAt_append ht rest

/-- After a replacement, the nodes elsewhere are by themselves what they were. -/
theorem map_own_find?_replaceAt {s : Session} {target address : Address} (new : Template)
    (h : ¬ address.Below target) :
    ((s.replaceAt target new).find? address).map Template.own =
      (s.find? address).map Template.own := by
  rw [replaceAt]
  cases hroot : s.slots.lookup target.slot with
  | none => rfl
  | some root =>
    rw [find?_put]
    by_cases hslot : address.slot = target.slot
    · have hpath : ¬ target.path <+: address.path := fun hprefix => h ⟨hslot, hprefix⟩
      rw [if_pos hslot, Template.map_own_find?_replaceAt hpath, find?, hslot, hroot,
        Option.bind_some]
    · rw [if_neg hslot]

/-! ### Settled sessions -/

/-- **Every template that can be made is settled**, and so is every template below it. -/
theorem all_settled_of_find? {commands : List Command} {address : Address} {t : Template}
    (h : (ofCommands commands).find? address = some t) : t.All Template.Settled := by
  -- the invariant is about slots, since every address is below one
  have hslots : ∀ name root, (ofCommands commands).slots.lookup name = some root →
      root.All Template.Settled := by
    clear h
    refine ofCommands_induction (P := fun s =>
      ∀ name root, s.slots.lookup name = some root → root.All Template.Settled) ?_ ?_ commands
    · intro name root hroot
      cases hroot
    · intro s c s' hs hrun name root hroot
      have hbelow : ∀ {address t}, s.find? address = some t → t.All Template.Settled := by
        intro address t ht
        obtain ⟨root, hroot, ht⟩ := find?_eq_some_iff.mp ht
        exact (hs _ root hroot).of_find? ht
      rcases run_cases hrun with ⟨slot, text, config, t, -, ht, rfl⟩ |
        ⟨slot, blueprint, t, supply, -, ht, rfl⟩ | ⟨slot, source, t, -, ht, rfl⟩ |
        ⟨target, key, inner, t, i, r, -, hi, ht, hr, rfl⟩
      · rcases lookup_put hroot with rfl | hroot
        · exact Template.all_settled_compile ht
        · exact hs name root hroot
      · rcases lookup_put hroot with rfl | hroot
        · exact Blueprint.of_build (fun _ _ _ _ => Template.all_settled_compile)
            (fun _ _ _ _ _ ht hi hr => (Template.all_settled_register ht hi hr).1) ht
        · exact hs name root hroot
      · rcases lookup_put hroot with rfl | hroot
        · exact hbelow ht
        · exact hs name root hroot
      · -- the receiver is replaced where it is, and keeps its columns, so nothing around it changes
        obtain ⟨old, hold, hfound⟩ := find?_eq_some_iff.mp ht
        obtain ⟨hnew, hcolumns⟩ := Template.all_settled_register (hbelow ht) (hbelow hi) hr
        have hreplace : (⟨s.slots, r.supply⟩ : Session).replaceAt target r.template =
            (⟨s.slots, r.supply⟩ : Session).put target.slot
              (old.replaceAt target.path r.template) := by
          rw [replaceAt, hold]
        rw [hreplace] at hroot
        rcases lookup_put hroot with rfl | hroot
        · exact (Template.all_settled_replaceAt (hs _ old hold) hfound hnew hcolumns).1
        · exact hs name root hroot
  obtain ⟨root, hroot, ht⟩ := find?_eq_some_iff.mp h
  exact (hslots _ root hroot).of_find? ht

/-- **The variants fit at every node of every template that can be made.** -/
theorem variants_fit_of_find? {commands : List Command} {address : Address} {t : Template}
    (h : (ofCommands commands).find? address = some t) : t.VariantsFit :=
  (all_settled_of_find? h).here.variantsFit

/-- A page with a list at column 2, and an item at column 2 of the list. -/
def nested : List Command :=
  [.compile "page" "<ul>\n  {{list}}\n</ul>" {}, .compile "list" "<li>\n  {{item}}\n</li>" {},
    .compile "item" "{{value}}" {}, .register ⟨"list", []⟩ "item" ⟨"item", []⟩,
    .register ⟨"page", []⟩ "list" ⟨"list", []⟩]

theorem variants_fit_of_find?_nested :
    ∃ t, (ofCommands nested).find? ⟨"page", ["list", "item"]⟩ = some t ∧ t.columns = [0, 2, 4] ∧
      t.VariantsFit := by
  have hcolumns : ((ofCommands nested).find? ⟨"page", ["list", "item"]⟩).map Template.columns =
      some [0, 2, 4] := by
    decide +kernel
  obtain ⟨t, ht, hcolumns⟩ := Option.map_eq_some_iff.mp hcolumns
  exact ⟨t, ht, hcolumns, variants_fit_of_find? ht⟩

end Session

end Stencil
