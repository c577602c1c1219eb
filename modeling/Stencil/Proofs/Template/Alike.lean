import Stencil.Proofs.Template.Render
import Stencil.Template.Estimate

/-!
# Templates that look alike

Two templates are **alike** when they have the same variants, keys and sizes at corresponding nodes
(`Template.Alike`). Their identities may differ, and so may the order in which the inner templates
of a node were registered.

Nothing that is done with data tells such templates apart: they have the same renderings and
estimates, and accept the same data (`Alike.renderUnchecked`, `Alike.estimateData`,
`Alike.check_eq_ok_iff`). The faults of a check may differ, since it goes through inner templates in
the order of their registration and stops at the first missing key.
-/

namespace Stencil

namespace Template

/-- The same variants, keys and sizes, and inner templates that are alike under the same keys. -/
inductive Alike : Template → Template → Prop where
  | node {t u : Template} (variants : t.variants = u.variants) (keys : t.keys = u.keys)
    (size : t.size = u.size) (distinct : t.innerKeys.Nodup)
    (innerKeys : t.innerKeys.Perm u.innerKeys)
    (below : ∀ key i j, t.inner? key = some i → u.inner? key = some j → Alike i j) : Alike t u

variable {t u : Template}

/-- Templates with the same inner keys have something under a key or both have not. -/
theorem inner?_cases (h : t.innerKeys.Perm u.innerKeys) (key : String) :
    (t.inner? key = none ∧ u.inner? key = none) ∨
      ∃ i j, t.inner? key = some i ∧ u.inner? key = some j := by
  have hbinds : t.binds key = u.binds key := congrFun (binds_of_perm h) key
  cases hi : t.inner? key with
  | none =>
    have hfree : u.binds key = false := hbinds.symm.trans (inner?_eq_none_iff.mp hi)
    exact Or.inl ⟨rfl, inner?_eq_none_iff.mpr hfree⟩
  | some i =>
    cases hj : u.inner? key with
    | none =>
      have hfree : t.binds key = false := hbinds.trans (inner?_eq_none_iff.mp hj)
      rw [inner?_eq_none_iff.mpr hfree] at hi
      cases hi
    | some j => exact Or.inr ⟨i, j, rfl, rfl⟩

/-! ### Paths -/

/-- The nodes that a path leads to have the same variants. -/
theorem Alike.find? (h : t.Alike u) (path : List String) :
    (t.find? path).map variants = (u.find? path).map variants := by
  induction path generalizing t u with
  | nil =>
    cases h with
    | node hvariants _ _ _ _ _ => exact congrArg some hvariants
  | cons key path ih =>
    cases h with
    | node _ _ _ _ hinner hbelow =>
      rw [find?_cons, find?_cons]
      rcases inner?_cases hinner key with ⟨hi, hj⟩ | ⟨i, j, hi, hj⟩
      · rw [hi, hj, Option.bind_none]
      · rw [hi, hj, Option.bind_some, Option.bind_some]
        exact ih (hbelow key i j hi hj)

/-! ### Rendering -/

theorem Alike.renderRecord (h : t.Alike u) (column : Nat) (record : Value) :
    t.renderRecord column record = u.renderRecord column record := by
  induction h generalizing column record with
  | @node t u hvariants _ _ _ hinner _ ih =>
    -- what is bound to a key is rendered alike, or nothing is bound to it in both
    have hbound : ∀ key column records,
        ((t.inner? key).map fun i => i.renderRecords column records).getD "" =
          ((u.inner? key).map fun j => j.renderRecords column records).getD "" := by
      intro key column records
      rcases inner?_cases hinner key with ⟨hi, hj⟩ | ⟨i, j, hi, hj⟩
      · rw [hi, hj]
      · have hrecords : i.renderRecords column records = j.renderRecords column records :=
          congrArg (stackAt column)
            (List.map_congr_left fun r _ => ih key i j hi hj column r)
        rw [hi, hj, Option.map_some, Option.map_some, hrecords]
    rw [renderRecord_eq, renderRecord_eq, hvariants]
    simp only [hbound]

/-- **Alike templates render alike.** -/
theorem Alike.renderUnchecked (h : t.Alike u) (data : Value) :
    t.renderUnchecked data = u.renderUnchecked data := by
  have hrecord : t.renderRecord = u.renderRecord := by
    funext column record
    exact h.renderRecord column record
  unfold Template.renderUnchecked renderRecords
  rw [hrecord]

/-! ### Estimates -/

theorem estimateInner_eq (inner : List (String × Template)) (records : List Value) :
    estimateInner inner records = (inner.map fun entry =>
      (records.map fun record => entry.2.estimate (record.recordsAt entry.1)).sum).sum := by
  induction inner with
  | nil => rw [estimateInner, List.map_nil, List.sum_nil]
  | cons entry rest ih =>
    rw [estimateInner, Lists.foldr_add_eq_sum_add, ih, List.map_cons, List.sum_cons]

theorem estimate_eq (t : Template) (records : List Value) :
    t.estimate records = max 1 records.length * t.size + (t.inner.map fun entry =>
      (records.map fun record => entry.2.estimate (record.recordsAt entry.1)).sum).sum := by
  cases t
  rw [estimate, estimateInner_eq]

theorem Alike.estimate (h : t.Alike u) (records : List Value) :
    t.estimate records = u.estimate records := by
  induction h generalizing records with
  | @node t u _ _ hsize hdistinct hinner _ ih =>
    rw [estimate_eq, estimate_eq, hsize]
    refine congrArg _ (Entries.sum_map_eq_of_perm hdistinct hinner
      (f := fun key i => (records.map fun r => i.estimate (r.recordsAt key)).sum)
      (g := fun key j => (records.map fun r => j.estimate (r.recordsAt key)).sum) fun key => ?_)
    -- the summands under one key are equal
    change ((t.inner? key).map _).getD 0 = ((u.inner? key).map _).getD 0
    rcases inner?_cases hinner key with ⟨hi, hj⟩ | ⟨i, j, hi, hj⟩
    · rw [hi, hj, Option.map_none]
    · rw [hi, hj]
      exact congrArg List.sum (List.map_congr_left fun r _ => ih key i j hi hj _)

/-- **Alike templates have the same estimates.** -/
theorem Alike.estimateData (h : t.Alike u) (data : Value) :
    t.estimateData data = u.estimateData data :=
  h.estimate data.records

/-! ### Checks -/

theorem checkItems_eq_ok_iff {check : Value → Except MissingKeys Unit} {start : Nat}
    {items : List Value} :
    checkItems check start items = .ok () ↔ ∀ item ∈ items, check item = .ok () := by
  induction items generalizing start with
  | nil => exact iff_of_true rfl fun item hitem => absurd hitem List.not_mem_nil
  | cons item rest ih =>
    rw [checkItems, Outcome.seq_eq_ok_iff, Outcome.mapError_eq_ok_iff, ih, List.forall_mem_cons]

theorem checkInner_eq_ok_iff {inner : List (String × Template)} {record : Value} :
    checkInner inner record = .ok () ↔
      ∀ entry ∈ inner, ∀ r ∈ record.recordsAt entry.1, entry.2.checkRecord r = .ok () := by
  induction inner with
  | nil =>
    rw [checkInner]
    exact iff_of_true rfl fun entry hentry => absurd hentry List.not_mem_nil
  | cons entry rest ih =>
    rw [checkInner, Outcome.seq_eq_ok_iff, Outcome.mapError_eq_ok_iff, checkItems_eq_ok_iff, ih,
      List.forall_mem_cons]

theorem checkRecord_eq (t : Template) (record : Value) :
    t.checkRecord record =
      match missingKeys t.keys t.binds record with
      | [] => checkInner t.inner record
      | missing => .error { path := [], keys := missing } := by
  have hbinds : (fun key => (t.inner.lookup key).isSome) = t.binds :=
    funext t.lookup_inner_isSome
  rw [← hbinds]
  cases t
  exact checkRecord.eq_def _ _

/-- **A record is accepted** when no key is missing and the inner templates accept what it has for
them. -/
theorem checkRecord_eq_ok_iff (distinct : t.innerKeys.Nodup) {record : Value} :
    t.checkRecord record = .ok () ↔ missingKeys t.keys t.binds record = [] ∧
      ∀ key i, t.inner? key = some i → ∀ r ∈ record.recordsAt key, i.checkRecord r = .ok () := by
  have hinner : (∀ key i, t.inner? key = some i → ∀ r ∈ record.recordsAt key,
      i.checkRecord r = .ok ()) ↔ checkInner t.inner record = .ok () := by
    rw [checkInner_eq_ok_iff, Prod.forall]
    simp only [inner?, Entries.lookup_eq_some_iff_mem distinct]
  rw [hinner, checkRecord_eq]
  cases missingKeys t.keys t.binds record with
  | nil => simp
  | cons key rest => simp

theorem Alike.checkRecord_eq_ok_iff (h : t.Alike u) (record : Value) :
    t.checkRecord record = .ok () ↔ u.checkRecord record = .ok () := by
  induction h generalizing record with
  | @node t u _ hkeys _ hdistinct hinner _ ih =>
    rw [Template.checkRecord_eq_ok_iff hdistinct,
      Template.checkRecord_eq_ok_iff (hinner.nodup_iff.mp hdistinct), hkeys, binds_of_perm hinner]
    -- the missing keys are the same, and what is under a key is accepted by both or neither
    refine and_congr_right fun _ => forall_congr' fun key => ?_
    rcases inner?_cases hinner key with ⟨hi, hj⟩ | ⟨i, j, hi, hj⟩
    · simp [hi, hj]
    · simp [hi, hj, ih key i j hi hj]

/-- **Alike templates accept the same data.** -/
theorem Alike.check_eq_ok_iff (h : t.Alike u) (data : Value) :
    t.check data = .ok () ↔ u.check data = .ok () := by
  unfold check checkRecords
  rw [checkItems_eq_ok_iff, checkItems_eq_ok_iff]
  exact forall_congr' fun record => imp_congr_right fun _ => h.checkRecord_eq_ok_iff record

end Template

end Stencil
