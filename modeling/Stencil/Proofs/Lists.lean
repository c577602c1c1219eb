import Mathlib.Algebra.BigOperators.Group.Multiset.Basic
import Mathlib.Algebra.GroupWithZero.Nat
import Mathlib.Data.List.Forall2
import Mathlib.Data.List.Induction
import Mathlib.Data.List.Nodup

/-!
# Lists

Facts about lists of any kind that are used here and there.

* When the items of two lists are related one by one, every item has a partner
  (`exists_of_mem_right`), and what the partners have in common is the same for the lists
  (`map_eq_map_of_forall₂`).
* To leave out what was there before is decided for the last item by the ones before it
  (`eraseDups_concat`). So nothing is left twice (`nodup_eraseDups`).
* Sums may be started from any number (`foldr_add_eq_sum_add`) and taken by rows or by columns
  (`sum_map_sum_comm`).
-/

namespace Stencil.Lists

variable {α β γ : Type} {R : α → β → Prop} {as : List α} {bs : List β}

/-! ### Lists related item by item -/

theorem exists_of_mem_right (h : List.Forall₂ R as bs) {b : β} (hb : b ∈ bs) :
    ∃ a ∈ as, R a b := by
  induction h with
  | nil => exact absurd hb List.not_mem_nil
  | cons hR _ ih =>
    rcases List.mem_cons.mp hb with rfl | hrest
    · exact ⟨_, List.mem_cons_self, hR⟩
    · obtain ⟨a, ha, hab⟩ := ih hrest
      exact ⟨a, List.mem_cons_of_mem _ ha, hab⟩

/-- What two functions give for related items, they give for the lists. -/
theorem map_eq_map_of_forall₂ {f : α → γ} {g : β → γ} (h : List.Forall₂ R as bs)
    (hfg : ∀ a ∈ as, ∀ b ∈ bs, R a b → g b = f a) : bs.map g = as.map f := by
  induction h with
  | nil => rfl
  | cons hR _ ih =>
    have hrest := ih fun a ha b hb =>
      hfg a (List.mem_cons_of_mem _ ha) b (List.mem_cons_of_mem _ hb)
    rw [List.map_cons, List.map_cons, hfg _ List.mem_cons_self _ List.mem_cons_self hR, hrest]

/-! ### Repeated items -/

theorem eraseDups_concat [DecidableEq α] (as : List α) (a : α) :
    (as ++ [a]).eraseDups = if a ∈ as then as.eraseDups else as.eraseDups ++ [a] := by
  rw [List.eraseDups_append]
  by_cases h : a ∈ as
  · have hnone : [a].removeAll as = [] := by simpa [List.removeAll] using h
    rw [if_pos h, hnone, List.eraseDups_nil, List.append_nil]
  · have hnew : [a].removeAll as = [a] := by simpa [List.removeAll] using h
    rw [if_neg h, hnew]
    rfl

theorem nodup_eraseDups [DecidableEq α] (as : List α) : as.eraseDups.Nodup := by
  induction as using List.reverseRecOn with
  | nil => exact List.nodup_nil
  | append_singleton rest a ih =>
    rw [eraseDups_concat]
    split
    · exact ih
    · next hnew =>
      rw [← List.concat_eq_append]
      exact ih.concat (mt List.mem_eraseDups.mp hnew)

/-! ### Sums -/

theorem foldr_add_eq_sum_add (f : α → Nat) (as : List α) (total : Nat) :
    as.foldr (fun a total => f a + total) total = (as.map f).sum + total := by
  calc as.foldr (fun a total => f a + total) total
      = (as.map f).foldr (· + ·) (0 + total) := by rw [List.foldr_map, Nat.zero_add]
    _ = (as.map f).foldr (· + ·) 0 + total := List.foldr_assoc
    _ = (as.map f).sum + total := by rw [List.sum_eq_foldr]

theorem sum_map_sum_comm (as : List α) (bs : List β) (f : α → β → Nat) :
    (as.map fun a => (bs.map fun b => f a b).sum).sum =
      (bs.map fun b => (as.map fun a => f a b).sum).sum := by
  have hcomm := Multiset.sum_map_sum_map (as : Multiset α) (bs : Multiset β) (f := f)
  simpa only [Multiset.map_coe, Multiset.sum_coe] using hcomm

end Stencil.Lists
