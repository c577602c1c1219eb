import Mathlib.Data.List.Forall2

/-!
# Results, one by one

A computation in `Except` succeeds with a result exactly when each of its steps does. These are the
inversion lemmas by which a successful reading, registration or building is taken apart.

A computation that looks for several faults one after another stops at the first one (`StopsAt`).
Computations that do so can be put together, and then the faults are put together
(`StopsAt.bind`).

The results of a list of computations are related to the list item by item (`mapM_eq_ok_iff`).
-/

namespace Stencil.Outcome

variable {ε ε' α β : Type}

theorem bind_eq_ok_iff {x : Except ε α} {f : α → Except ε β} {b : β} :
    x >>= f = .ok b ↔ ∃ a, x = .ok a ∧ f a = .ok b := by
  cases x with
  | error e => simp [bind, Except.bind]
  | ok a => simp [bind, Except.bind]

theorem ok_bind (a : α) (f : α → Except ε β) : Except.ok a >>= f = f a := rfl

theorem seq_eq_ok_iff {x : Except ε Unit} {y : Except ε β} {b : β} :
    (x >>= fun _ => y) = .ok b ↔ x = .ok () ∧ y = .ok b := by
  rw [bind_eq_ok_iff]
  exact ⟨fun ⟨(), hx, hy⟩ => ⟨hx, hy⟩, fun ⟨hx, hy⟩ => ⟨(), hx, hy⟩⟩

theorem pure_eq_ok_iff {a b : α} : (pure a : Except ε α) = .ok b ↔ b = a := by
  simp [pure, Except.pure, eq_comm]

theorem mapError_eq_ok_iff {x : Except ε α} {f : ε → ε'} {a : α} :
    x.mapError f = .ok a ↔ x = .ok a := by
  cases x with
  | error e => simp [Except.mapError]
  | ok b => simp [Except.mapError]

theorem mapError_bind (x : Except ε α) (f : α → Except ε β) (g : ε → ε') :
    (x >>= f).mapError g = x.mapError g >>= fun a => (f a).mapError g := by
  cases x with
  | error e => rfl
  | ok a => rfl

theorem mapError_mapError {ε'' : Type} (x : Except ε α) (f : ε → ε') (g : ε' → ε'') :
    (x.mapError f).mapError g = x.mapError fun e => g (f e) := by
  cases x with
  | error e => rfl
  | ok a => rfl

theorem toOption_eq_some_iff {x : Except ε α} {a : α} : x.toOption = some a ↔ x = .ok a := by
  cases x with
  | error e => simp [Except.toOption]
  | ok b => simp [Except.toOption]

theorem exists_of_toBool {x : Except ε α} (h : x.toBool = true) : ∃ a, x = .ok a := by
  cases x with
  | error e => cases h
  | ok a => exact ⟨a, rfl⟩

/-- **Item by item**: the results of a list of computations are their results one by one. -/
theorem mapM_eq_ok_iff {f : α → Except ε β} {as : List α} {bs : List β} :
    as.mapM f = .ok bs ↔ List.Forall₂ (fun a b => f a = .ok b) as bs := by
  induction as generalizing bs with
  | nil => rw [List.mapM_nil, pure_eq_ok_iff, List.forall₂_nil_left_iff]
  | cons a rest ih =>
    rw [List.mapM_cons, bind_eq_ok_iff, List.forall₂_cons_left_iff]
    refine ⟨?_, ?_⟩
    · intro h
      obtain ⟨b, hb, hrest⟩ := h
      obtain ⟨cs, hcs, heq⟩ := bind_eq_ok_iff.mp hrest
      exact ⟨b, cs, hb, ih.mp hcs, pure_eq_ok_iff.mp heq⟩
    · intro h
      obtain ⟨b, cs, hb, hcs, rfl⟩ := h
      exact ⟨b, hb, bind_eq_ok_iff.mpr ⟨cs, ih.mpr hcs, rfl⟩⟩

theorem mapM_eq_some_of_forall {f : α → Option β} {g : α → β} {as : List α}
    (h : ∀ a ∈ as, f a = some (g a)) : as.mapM f = some (as.map g) := by
  induction as with
  | nil => rfl
  | cons a rest ih =>
    have hrest := ih fun b hb => h b (List.mem_cons_of_mem a hb)
    rw [List.mapM_cons, h a List.mem_cons_self, hrest]
    rfl

/-! ### The first of several faults -/

/-- A computation that stops at the first of some faults, and if there are none has a result with a
property. -/
inductive StopsAt (P : α → Prop) : List ε → Except ε α → Prop where
  | ok {a : α} (h : P a) : StopsAt P [] (.ok a)
  | error (e : ε) (rest : List ε) : StopsAt P (e :: rest) (.error e)

namespace StopsAt

variable {P : α → Prop} {Q : β → Prop} {es fs : List ε} {x : Except ε α}

/-- **Faults of computations in a row**: those of the second come behind those of the first. -/
theorem bind (hx : StopsAt P es x) {f : α → Except ε β}
    (hf : ∀ a, x = .ok a → P a → StopsAt Q fs (f a)) : StopsAt Q (es ++ fs) (x >>= f) := by
  cases hx with
  | ok h => exact hf _ rfl h
  | error e rest => exact .error e (rest ++ fs)

theorem of_eq_ok (hx : StopsAt P es x) {a : α} (h : x = .ok a) : P a := by
  cases hx with
  | ok ha =>
    cases h
    exact ha
  | error e rest => cases h

theorem exists_ok_iff (hx : StopsAt P es x) : (∃ a, x = .ok a) ↔ es = [] := by
  cases hx with
  | ok ha => exact iff_of_true ⟨_, rfl⟩ rfl
  | error e rest => exact iff_of_false (fun ⟨_, h⟩ => nomatch h) (List.cons_ne_nil e rest)

theorem eq_error_iff (hx : StopsAt P es x) {e : ε} : x = .error e ↔ es.head? = some e := by
  cases hx with
  | ok ha => simp
  | error e' rest => simp

end StopsAt

end Stencil.Outcome
