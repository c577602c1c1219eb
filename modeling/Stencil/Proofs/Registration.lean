import Stencil.Proofs.Session
import Stencil.Proofs.Template.Patch

/-!
# Registering in a session

What a registration does to the templates of a session, whatever commands made them.

* It is a **local patch** (`Session.patch_of_run_register`). The receiver gets one more inner
  template, in the last place, and the placeholders of the key become inner ones; the inner
  template is the one registered but for identities and variants; away from the receiver nothing
  changes.
* It is **refused for three reasons only** (`Session.register_of_find?`): texts that were read once
  can be read at every column, so the making of variants does not fail, and the copy is always found
  in its place. A refusal changes nothing.
-/

namespace Stencil.Session

variable {commands : List Command} {target inner : Address} {key : String}

/-- What is registered and where are looked up first, then all depends on the templates. -/
theorem run_register {s : Session} {t i : Template} (ht : s.find? target = some t)
    (hi : s.find? inner = some i) (key : String) :
    s.run (.register target key inner) =
      ((t.register key i s.supply).mapError Refusal.fault >>= fun r =>
        pure ({ s with supply := r.supply }.replaceAt target r.template)) := by
  have hfind : s.find target = .ok t ∧ s.find inner = .ok i := by
    rw [find, find, ht, hi]
    exact ⟨rfl, rfl⟩
  rw [run, hfind.1, hfind.2, Outcome.ok_bind, Outcome.ok_bind]

/-- **A registration is carried out or refused as a whole.** If it is carried out, the new receiver
stands in the place of the old one and the copy in the place of its key. -/
theorem run_register_cases {s : Session} {t i : Template} (ht : s.find? target = some t)
    (hi : s.find? inner = some i) (key : String) :
    (∃ fault, t.register key i s.supply = .error fault ∧
      s.run (.register target key inner) = .error (.fault fault) ∧
        s.after (.register target key inner) = s) ∨
    (∃ r s', t.register key i s.supply = .ok r ∧ s.run (.register target key inner) = .ok s' ∧
      s'.find? target = some r.template ∧
        s'.find? ⟨target.slot, target.path ++ [key]⟩ = some r.stored ∧
          ∀ address : Address, ¬ address.Below target →
            (s'.find? address).map Template.own = (s.find? address).map Template.own) := by
  rw [after, run_register ht hi]
  cases hr : t.register key i s.supply with
  | error fault => exact Or.inl ⟨fault, rfl, rfl, rfl⟩
  | ok r =>
    have hstored : r.template.inner? key = some r.stored :=
      (Template.register_eq_ok_iff.mp hr).2.2.1
    -- the supply plays no part in what is found
    have ht' : ({ s with supply := r.supply } : Session).find? target = some t := ht
    have hbelow := find?_replaceAt_append ht' r.template
    refine Or.inr ⟨r, _, rfl, rfl, ?_, ?_, fun address haway => ?_⟩
    · have htarget := hbelow []
      rwa [List.append_nil] at htarget
    · rw [hbelow, Template.find?_cons, hstored]
      rfl
    · exact map_own_find?_replaceAt (s := { s with supply := r.supply }) r.template haway

/-- A registration that is carried out is of a template that is there, on one that is there. -/
theorem exists_of_run_register {s s' : Session}
    (h : s.run (.register target key inner) = .ok s') :
    ∃ t i, s.find? target = some t ∧ s.find? inner = some i := by
  rcases run_cases h with ⟨slot, text, config, t, hc, -⟩ | ⟨slot, blueprint, t, supply, hc, -⟩ |
    ⟨slot, source, t, hc, -⟩ | ⟨target, key, inner, t, i, r, hc, hi, ht, -⟩
  · cases hc
  · cases hc
  · cases hc
  · cases hc
    exact ⟨t, i, ht, hi⟩

/-! ### The patch -/

/-- **A registration is a local patch.** -/
theorem patch_of_run_register {s' : Session}
    (h : (ofCommands commands).run (.register target key inner) = .ok s') :
    ∃ t i stored, (ofCommands commands).find? target = some t ∧
      (ofCommands commands).find? inner = some i ∧
      s'.find? target = some { t with
        variants := t.variants.map fun variant =>
          (variant.1, variant.2.map (Section.bind (· == key)))
        inner := t.inner ++ [(key, stored)] } ∧
      stored.bare = i.bare ∧
      ∀ address : Address, ¬ address.Below target →
        (s'.find? address).map Template.own =
          ((ofCommands commands).find? address).map Template.own := by
  obtain ⟨t, i, ht, hi⟩ := exists_of_run_register h
  rcases run_register_cases ht hi key with ⟨fault, -, hrun, -⟩ |
    ⟨r, s'', hr, hrun, htarget, -, haway⟩
  · rw [hrun] at h
    cases h
  obtain rfl := Except.ok.inj (hrun.symm.trans h)
  obtain ⟨⟨hkey, hself, hfree⟩, -⟩ := Template.register_eq_ok_iff.mp hr
  obtain ⟨stored, hpatch, hbare⟩ := Template.register_of_settled (all_settled_of_find? ht)
    (all_settled_of_find? hi) hkey hself hfree (ofCommands commands).supply
  have hr' := Except.ok.inj (hr.symm.trans hpatch)
  refine ⟨t, i, stored, ht, hi, ?_, hbare, haway⟩
  rw [htarget, hr']
  rfl

/-- A page with a list at column 2, whose items are not registered yet. -/
def listed : List Command :=
  nested.take 3 ++ [.register ⟨"page", []⟩ "list" ⟨"list", []⟩]

theorem patch_of_run_register_listed :
    ∃ s' t stored,
      (ofCommands listed).run (.register ⟨"page", ["list"]⟩ "item" ⟨"item", []⟩) = .ok s' ∧
      (ofCommands listed).find? ⟨"page", ["list"]⟩ = some t ∧
      s'.find? ⟨"page", ["list"]⟩ = some { t with
        variants := t.variants.map fun variant =>
          (variant.1, variant.2.map (Section.bind (· == "item")))
        inner := t.inner ++ [("item", stored)] } ∧
      (s'.find? ⟨"page", []⟩).map Template.own =
        ((ofCommands listed).find? ⟨"page", []⟩).map Template.own := by
  have hrun : ((ofCommands listed).run
      (.register ⟨"page", ["list"]⟩ "item" ⟨"item", []⟩)).toBool = true := by
    decide +kernel
  obtain ⟨s', hrun⟩ := Outcome.exists_of_toBool hrun
  obtain ⟨t, i, stored, ht, -, ht', -, haway⟩ := patch_of_run_register hrun
  exact ⟨s', t, stored, hrun, ht, ht', haway ⟨"page", []⟩ (by decide)⟩

/-! ### Refusals -/

/-- **Three reasons to refuse a registration**, and no others. A refusal changes nothing, and a
registration that is not refused gives the template that is found under the key. -/
theorem register_of_find? {t i : Template} (ht : (ofCommands commands).find? target = some t)
    (hi : (ofCommands commands).find? inner = some i) (key : String) :
    ((∃ fault, t.register key i (ofCommands commands).supply = .error fault) ↔
      Text.trim key = "" ∨ i.id = t.id ∨ key ∈ t.innerKeys) ∧
    (∀ fault, t.register key i (ofCommands commands).supply = .error fault →
      (∃ reason, t.Refuses key i reason ∧ fault = .binding reason) ∧
        (ofCommands commands).run (.register target key inner) = .error (.fault fault) ∧
          (ofCommands commands).after (.register target key inner) = ofCommands commands) ∧
    (∀ r, t.register key i (ofCommands commands).supply = .ok r →
      ∃ s', (ofCommands commands).run (.register target key inner) = .ok s' ∧
        s'.find? ⟨target.slot, target.path ++ [key]⟩ = some r.stored) := by
  have hreason : ∀ fault, t.register key i (ofCommands commands).supply = .error fault ↔
      ∃ reason, t.Refuses key i reason ∧ fault = .binding reason := fun fault =>
    Template.register_eq_error_iff (all_settled_of_find? ht) (all_settled_of_find? hi)
  refine ⟨?_, fun fault hfault => ⟨(hreason fault).mp hfault, ?_⟩, fun r hr => ?_⟩
  · simp only [hreason, ← Template.exists_refuses_iff]
    refine ⟨?_, ?_⟩
    · rintro ⟨_, reason, hrefuses, -⟩
      exact ⟨reason, hrefuses⟩
    · rintro ⟨reason, hrefuses⟩
      exact ⟨_, reason, hrefuses, rfl⟩
  · rcases run_register_cases ht hi key with ⟨fault', hfault', hrun, hafter⟩ | ⟨r, s', hr, -⟩
    · obtain rfl := Except.error.inj (hfault.symm.trans hfault')
      exact ⟨hrun, hafter⟩
    · rw [hfault] at hr
      cases hr
  · rcases run_register_cases ht hi key with ⟨fault, hfault, -⟩ | ⟨r', s', hr', hrun, -, hstored, -⟩
    · rw [hr] at hfault
      cases hfault
    · obtain rfl := Except.ok.inj (hr.symm.trans hr')
      exact ⟨s', hrun, hstored⟩

theorem register_of_find?_nested :
    ∃ t i, (ofCommands nested).find? ⟨"page", []⟩ = some t ∧
      (ofCommands nested).find? ⟨"page", ["list"]⟩ = some i ∧
      (ofCommands nested).run (.register ⟨"page", []⟩ "list" ⟨"page", ["list"]⟩) =
        .error (.fault (.binding (.takenKey "list"))) ∧
      ∃ r s', t.register "foot" i (ofCommands nested).supply = .ok r ∧
        (ofCommands nested).run (.register ⟨"page", []⟩ "foot" ⟨"page", ["list"]⟩) = .ok s' ∧
        s'.find? ⟨"page", ["foot"]⟩ = some r.stored := by
  have hpage : ((ofCommands nested).find? ⟨"page", []⟩).map
      (fun t => (t.id, t.innerKeys)) = some (⟨1⟩, ["list"]) := by
    decide +kernel
  have hlist : ((ofCommands nested).find? ⟨"page", ["list"]⟩).map Template.id = some ⟨5⟩ := by
    decide +kernel
  obtain ⟨t, ht, hpage⟩ := Option.map_eq_some_iff.mp hpage
  obtain ⟨i, hi, hlist⟩ := Option.map_eq_some_iff.mp hlist
  obtain ⟨hid, hkeys⟩ := Prod.mk.inj hpage
  have hself : i.id ≠ t.id := by
    rw [hid, hlist]
    decide
  refine ⟨t, i, ht, hi, ?_, ?_⟩
  · have htaken : "list" ∈ t.innerKeys := by
      rw [hkeys]
      exact List.mem_singleton_self _
    obtain ⟨hiff, hfault, -⟩ := register_of_find? ht hi "list"
    obtain ⟨fault, hregister⟩ := hiff.mpr (Or.inr (Or.inr htaken))
    obtain ⟨⟨reason, hreason, rfl⟩, hrun, -⟩ := hfault fault hregister
    cases hreason with
    | blankKey blank => exact absurd blank (by decide)
    | itself _ same => exact absurd same hself
    | takenKey => exact hrun
  · obtain ⟨hiff, -, hok⟩ := register_of_find? ht hi "foot"
    cases hregister : t.register "foot" i (ofCommands nested).supply with
    | error fault =>
      rcases hiff.mp ⟨fault, hregister⟩ with blank | same | taken
      · exact absurd blank (by decide)
      · exact absurd same hself
      · rw [hkeys] at taken
        exact absurd taken (by decide)
    | ok r =>
      obtain ⟨s', hrun, hstored⟩ := hok r hregister
      exact ⟨r, s', rfl, hrun, hstored⟩

end Stencil.Session
