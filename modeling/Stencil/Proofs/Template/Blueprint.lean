import Stencil.Proofs.Outcome
import Stencil.Template.Blueprint

/-!
# What a building computes

To build a blueprint is to compile and to register, so what holds of templates just compiled and is
kept by registrations holds of templates built (`Blueprint.build_induction`).
-/

namespace Stencil.Blueprint

/-- **Induction on blueprints**: what holds of a blueprint whenever it holds of its inner blueprints
holds of all blueprints. -/
@[elab_as_elim] theorem induction {P : Blueprint → Prop}
    (node : ∀ b, (∀ key i, (key, i) ∈ b.inner → P i) → P b) (b : Blueprint) : P b := by
  refine @Blueprint.rec P (fun inner => ∀ key i, (key, i) ∈ inner → P i) (fun entry => P entry.2)
    ?node ?nil ?cons ?entry b
  case node =>
    intro source config inner ih
    exact node _ ih
  case nil =>
    intro key i hmem
    exact absurd hmem List.not_mem_nil
  case cons =>
    intro entry rest ihEntry ihRest key i hmem
    rcases List.mem_cons.mp hmem with rfl | hrest
    · exact ihEntry
    · exact ihRest key i hrest
  case entry =>
    intro key i ih
    exact ih

variable {supply supply' : Supply} {t t' : Template}

theorem build_eq_ok_iff {b : Blueprint} :
    b.build supply = .ok (t', supply') ↔
      ∃ text t, b.source = some text ∧
        Template.compile text b.config supply.draw.1 = .ok t ∧
          buildInner b.inner t supply.draw.2 = .ok (t', supply') := by
  obtain ⟨source, config, inner⟩ := b
  cases source with
  | none => simp [build]
  | some text =>
    rw [build]
    simp only [Outcome.bind_eq_ok_iff]
    refine ⟨?_, ?_⟩
    · intro h
      obtain ⟨t, ht, hinner⟩ := h
      exact ⟨text, t, rfl, ht, hinner⟩
    · intro h
      obtain ⟨_, t, ⟨⟩, ht, hinner⟩ := h
      exact ⟨t, ht, hinner⟩

theorem buildInner_cons_eq_ok_iff {key : String} {b : Blueprint}
    {rest : List (String × Blueprint)} :
    buildInner ((key, b) :: rest) t supply = .ok (t', supply') ↔
      ∃ i s r, b.build supply = .ok (i, s) ∧ t.register key i s = .ok r ∧
        buildInner rest r.template r.supply = .ok (t', supply') := by
  rw [buildInner]
  simp only [Outcome.bind_eq_ok_iff, Prod.exists]
  refine ⟨?_, ?_⟩
  · intro h
    obtain ⟨i, s, hi, r, hr, hrest⟩ := h
    exact ⟨i, s, r, hi, hr, hrest⟩
  · intro h
    obtain ⟨i, s, r, hi, hr, hrest⟩ := h
    exact ⟨i, s, hi, r, hr, hrest⟩

/-- **Building is compiling and registering**, step by step: what holds of templates just compiled
and is kept by registrations holds of templates built, with the supply from which they draw. -/
theorem build_induction {P : Supply → Template → Supply → Prop} {b : Blueprint}
    (compiled : ∀ text config s t, Template.compile text config s.draw.1 = .ok t → P s t s.draw.2)
    (registered : ∀ s t s₁ key i s₂ r, P s t s₁ → P s₁ i s₂ → t.register key i s₂ = .ok r →
      P s r.template r.supply)
    (h : b.build supply = .ok (t, supply')) : P supply t supply' := by
  induction b using Blueprint.induction generalizing supply t supply' with
  | node b ih =>
    -- the inner blueprints still to be built are some of those of `b`, and the property is kept
    have hinner : ∀ inner : List (String × Blueprint), inner ⊆ b.inner → ∀ {s t s₁ t' s'},
        P s t s₁ → buildInner inner t s₁ = .ok (t', s') → P s t' s' := by
      intro inner
      induction inner with
      | nil =>
        intro _ s t s₁ t' s' ht hbuild
        rw [buildInner, Outcome.pure_eq_ok_iff, Prod.mk.injEq] at hbuild
        obtain ⟨rfl, rfl⟩ := hbuild
        exact ht
      | cons entry rest ihRest =>
        intro hsub s t s₁ t' s' ht hbuild
        obtain ⟨key, i⟩ := entry
        obtain ⟨hmem, hrest⟩ := List.cons_subset.mp hsub
        obtain ⟨i', s₂, r, hi', hr, hbuild⟩ := buildInner_cons_eq_ok_iff.mp hbuild
        exact ihRest hrest (registered _ _ _ _ _ _ _ ht (ih key i hmem hi') hr) hbuild
    obtain ⟨text, t₀, -, ht₀, hbuild⟩ := build_eq_ok_iff.mp h
    exact hinner b.inner (List.Subset.refl _) (compiled _ _ _ _ ht₀) hbuild

/-- A property of templates just compiled that is kept by registrations is a property of templates
built. -/
theorem of_build {P : Template → Prop} {b : Blueprint}
    (compiled : ∀ text config id t, Template.compile text config id = .ok t → P t)
    (registered : ∀ t key i s r, P t → P i → t.register key i s = .ok r → P r.template)
    (h : b.build supply = .ok (t, supply')) : P t :=
  build_induction (P := fun _ t _ => P t) (fun _ _ _ _ => compiled _ _ _ _)
    (fun _ _ _ _ _ _ _ => registered _ _ _ _ _) h

end Stencil.Blueprint
