import Stencil.Proofs.Session
import Stencil.Proofs.Template.Alike

/-!
# What a check visits

A check goes through the records of the data and, at each record, through those that it holds for
the inner templates, in the order of their registration. Each time a record is held against a
template is a **visit** (`Visit`): it has a place, which is written as a report writes it, and the
keys that are missing there are those that the template declares and does not bind and that the
record does not have.

The visits are listed in the order in which they are made (`Template.visits`), as if the check went
on to the end. What the check finds is the first visit at which keys are missing
(`Template.report_check`): a check that stops there and one that goes through the list to the first
such visit give the same report. Both are taken apart in the same way, into the template itself and
what comes behind it, so they are compared by one induction on the tree.

The main statement is `Session.check_of_find?`.
-/

namespace Stencil

/-! ### Keys -/

/-- The keys of a unit: those of its fields, or the implicit one if it has no fields. -/
def Value.keys : Value → List String
  | record fields => fields.map Prod.fst
  | null | text _ | list _ => [implicitField]

theorem Value.isNone_field?_eq (record : Value) (key : String) :
    (record.field? key).isNone = decide (key ∉ record.keys) := by
  have himplicit : ∀ v : Value, (if key = implicitField then some v else none).isNone =
      decide (key ∉ [implicitField]) := by
    intro v
    by_cases hkey : key = implicitField
    · simp [hkey]
    · simp [hkey]
  cases record with
  | record fields =>
    rw [field?_record, keys, ← Option.not_isSome, Entries.lookup_isSome_eq, decide_not]
  | null | text | list => exact himplicit _

/-- No key is declared twice. -/
theorem Template.Declared.nodup_keys {t : Template} (h : t.Declared) : t.keys.Nodup := by
  obtain ⟨sections, -, hkeys⟩ := h.keys
  rw [hkeys]
  exact Lists.nodup_eraseDups _

/-! ### Visits -/

/-- A record that is held against a template. -/
structure Visit where
  /-- Where the record is, as a report says it. -/
  place : String
  template : Template
  record : Value

namespace Visit

/-- The keys that the template declares and does not bind and that the record does not have, in the
order of their declaration. -/
def missing (v : Visit) : List String :=
  v.template.keys.filter fun key => key ∉ v.template.innerKeys ∧ key ∉ v.record.keys

/-- Whether keys are missing. -/
def Fails (v : Visit) : Prop :=
  v.missing ≠ []

instance (v : Visit) : Decidable v.Fails :=
  inferInstanceAs (Decidable (_ ≠ _))

/-- The visits to the items of a sequence, one after another, if `visit` makes those to an item at a
place. -/
def sequence (visit : String → Value → List Visit) (place : String) (start : Nat)
    (items : List Value) : List Visit :=
  (items.zipIdx start).flatMap fun (item, index) =>
    visit (place ++ "[" ++ toString index ++ "]") item

/-- The report on visits: the first one at which keys are missing is reported. -/
def report (visits : List Visit) : Except Report Unit :=
  match visits.find? Fails with
  | none => .ok ()
  | some v => .error (.missingKeys v.place v.missing)

end Visit

namespace Template

mutual

/-- The visits to a record at a place: the template itself, and then its inner templates. -/
def visitsRecord (t : Template) (place : String) (record : Value) : List Visit :=
  match t with
  | { inner, .. } => ⟨place, t, record⟩ :: visitsInner inner place record

/-- The visits to what a record holds for inner templates. -/
def visitsInner : List (String × Template) → String → Value → List Visit
  | [], _, _ => []
  | (key, t) :: rest, place, record =>
    Visit.sequence (fun place item => t.visitsRecord place item) (place ++ "." ++ key) 0
      (record.recordsAt key) ++ visitsInner rest place record

end

/-- The visits to data. -/
def visits (t : Template) (data : Value) : List Visit :=
  Visit.sequence t.visitsRecord "ROOT" 0 data.records

theorem visitsRecord_eq (t : Template) (place : String) (record : Value) :
    t.visitsRecord place record = ⟨place, t, record⟩ :: visitsInner t.inner place record := by
  cases t
  rw [visitsRecord]

end Template

/-! ### Reports on visits -/

namespace Visit

theorem report_append (before behind : List Visit) :
    report (before ++ behind) = (do
      report before
      report behind) := by
  unfold report
  rw [List.find?_append]
  cases before.find? Fails with
  | none => rfl
  | some v => rfl

theorem report_cons (v : Visit) (behind : List Visit) :
    report (v :: behind) =
      match v.missing with
      | [] => report behind
      | missing => .error (.missingKeys v.place missing) := by
  unfold report
  rw [List.find?_cons]
  cases hmissing : v.missing with
  | nil =>
    have hpasses : ¬ v.Fails := not_not.mpr hmissing
    rw [decide_eq_false hpasses]
  | cons key rest =>
    have hfails : v.Fails := by
      unfold Fails
      rw [hmissing]
      exact List.cons_ne_nil key rest
    rw [decide_eq_true hfails]
    simp only [hmissing]

theorem report_eq_ok_iff {visits : List Visit} :
    report visits = .ok () ↔ ∀ v ∈ visits, v.missing = [] := by
  unfold report
  cases hfound : visits.find? Fails with
  | none =>
    have hpass := List.find?_eq_none.mp hfound
    refine iff_of_true rfl fun v hv => ?_
    exact not_not.mp (mt decide_eq_true (hpass v hv))
  | some v =>
    have hfails := List.find?_some hfound
    refine iff_of_false (fun h => nomatch h) fun hpass => ?_
    exact of_decide_eq_true hfails (hpass v (List.mem_of_find?_eq_some hfound))

end Visit

/-- The report on a fault below a place. -/
def Report.below (place : String) (m : MissingKeys) : Report :=
  .missingKeys (place ++ String.join (m.path.map PathStep.text)) m.keys

theorem Report.below_under (place : String) (step : PathStep) (m : MissingKeys) :
    below place (m.under step) = below (place ++ step.text) m := by
  unfold below MissingKeys.under
  rw [List.map_cons, String.join_cons, String.append_assoc]

namespace Template

/-- A sequence is reported on as its visits are, if every item is. -/
theorem report_checkItems {check : Value → Except MissingKeys Unit}
    {visit : String → Value → List Visit}
    (h : ∀ place item, (check item).mapError (.below place) =
      Visit.report (visit place item)) (place : String) (start : Nat) (items : List Value) :
    (checkItems check start items).mapError (.below place) =
      Visit.report (Visit.sequence visit place start items) := by
  induction items generalizing start with
  | nil => rfl
  | cons item rest ih =>
    -- the index is put before the path of a fault of the item, and behind the place of a visit
    have hplace : place ++ (PathStep.item start).text = place ++ "[" ++ toString start ++ "]" := by
      simp only [PathStep.text, String.append_assoc]
    have hitem : ((check item).mapError (MissingKeys.under (.item start))).mapError
        (.below place) = Visit.report (visit (place ++ "[" ++ toString start ++ "]") item) := by
      rw [← h, Outcome.mapError_mapError, ← hplace]
      simp only [Report.below_under]
    unfold Visit.sequence at ih ⊢
    rw [List.zipIdx_cons, List.flatMap_cons, Visit.report_append, ← ih, ← hitem, checkItems,
      Outcome.mapError_bind]

/-- What a record holds for inner templates is reported on as the visits to it are. -/
theorem report_checkInner {inner : List (String × Template)}
    (h : ∀ key i, (key, i) ∈ inner → ∀ place item,
      (i.checkRecord item).mapError (.below place) = Visit.report (i.visitsRecord place item))
    (place : String) (record : Value) :
    (checkInner inner record).mapError (.below place) =
      Visit.report (visitsInner inner place record) := by
  induction inner with
  | nil =>
    rw [checkInner, visitsInner]
    rfl
  | cons entry rest ih =>
    obtain ⟨key, i⟩ := entry
    have hplace : place ++ (PathStep.field key).text = place ++ "." ++ key := by
      simp only [PathStep.text, String.append_assoc]
    have hitems := report_checkItems (h key i List.mem_cons_self) (place ++ "." ++ key) 0
      (record.recordsAt key)
    have hrest := ih fun k j hmem => h k j (List.mem_cons_of_mem _ hmem)
    rw [checkInner, visitsInner, Visit.report_append, ← hrest, ← hitems, Outcome.mapError_bind,
      Outcome.mapError_mapError, ← hplace]
    simp only [Report.below_under]

theorem missingKeys_eq (t : Template) (place : String) (record : Value) :
    missingKeys t.keys t.binds record = Visit.missing ⟨place, t, record⟩ := by
  refine List.filter_congr fun key _ => ?_
  rw [binds, Value.isNone_field?_eq, Bool.decide_and, decide_not (p := key ∈ t.innerKeys)]

/-- **A check reports the first visit at which keys are missing**, to a record at any place. -/
theorem report_checkRecord (t : Template) (place : String) (record : Value) :
    (t.checkRecord record).mapError (.below place) =
      Visit.report (t.visitsRecord place record) := by
  induction t using Template.induction generalizing place record with
  | node t ih =>
    rw [visitsRecord_eq, Visit.report_cons, ← missingKeys_eq, ← report_checkInner ih,
      checkRecord_eq]
    -- the visit to the template itself comes before all others
    cases missingKeys t.keys t.binds record with
    | nil => rfl
    | cons key rest =>
      show Except.error (Report.below place _) = _
      simp [Report.below]

/-- **A check reports the first visit at which keys are missing.** -/
theorem report_check (t : Template) (data : Value) :
    (t.check data).mapError (fun m => (Fault.missingKeys m).report) =
      Visit.report (t.visits data) :=
  report_checkItems t.report_checkRecord "ROOT" 0 data.records

/-- What holds of every node of a tree holds of the template of every visit. -/
theorem All.of_mem_visitsRecord {P : Template → Prop} {t : Template} (h : t.All P)
    {place : String} {record : Value} {v : Visit} (hv : v ∈ t.visitsRecord place record) :
    P v.template := by
  induction t using Template.induction generalizing place record with
  | node t ih =>
    have hinner : ∀ entries, entries ⊆ t.inner → v ∈ visitsInner entries place record →
        P v.template := by
      intro entries hsub hv
      induction entries with
      | nil =>
        rw [visitsInner] at hv
        exact absurd hv List.not_mem_nil
      | cons entry rest ihRest =>
        obtain ⟨key, i⟩ := entry
        obtain ⟨hmem, hrest⟩ := List.cons_subset.mp hsub
        rw [visitsInner] at hv
        rcases List.mem_append.mp hv with hv | hv
        · obtain ⟨⟨item, index⟩, -, hv⟩ := List.mem_flatMap.mp hv
          exact ih key i hmem (h.of_mem_inner hmem) hv
        · exact ihRest hrest hv
    rw [visitsRecord_eq] at hv
    rcases List.mem_cons.mp hv with rfl | hv
    · exact h.here
    · exact hinner t.inner (List.Subset.refl _) hv

end Template

/-! ### Templates that can be made -/

namespace Session

/-- **Which violation a check reports**, for every template that can be made and all data. The check
accepts the data exactly when at every visit the record has each declared key that is not bound.
Otherwise the fault that it ends with is reported as the first visit at which keys are missing: by
its place, and with its missing keys, of which there is one at least, and none is listed twice. -/
theorem check_of_find? {commands : List Command} {address : Address} {t : Template}
    (h : (ofCommands commands).find? address = some t) (data : Value) :
    (t.check data = .ok () ↔ ∀ v ∈ t.visits data, ∀ key ∈ v.template.keys,
      key ∉ v.template.innerKeys → key ∈ v.record.keys) ∧
    (t.check data ≠ .ok () → ∃ v m, (t.visits data).find? Visit.Fails = some v ∧
      t.check data = .error m ∧
      (Fault.missingKeys m).report = .missingKeys v.place v.missing ∧
      v.missing ≠ [] ∧ v.missing.Nodup) := by
  have hreport := t.report_check data
  refine ⟨?accepted, fun hrefused => ?refused⟩
  case accepted =>
    rw [← Outcome.mapError_eq_ok_iff, hreport, Visit.report_eq_ok_iff]
    refine forall₂_congr fun v _ => ?_
    simp only [Visit.missing, List.filter_eq_nil_iff, decide_eq_true_eq, not_and, not_not]
  case refused =>
    unfold Visit.report at hreport
    cases hfound : (t.visits data).find? Visit.Fails with
    | none =>
      rw [hfound] at hreport
      exact absurd (Outcome.mapError_eq_ok_iff.mp hreport) hrefused
    | some v =>
      have hfails := List.find?_some hfound
      have hmem : v ∈ t.visits data := List.mem_of_find?_eq_some hfound
      obtain ⟨⟨record, index⟩, -, hmem⟩ := List.mem_flatMap.mp hmem
      have hsettled := (all_settled_of_find? h).of_mem_visitsRecord hmem
      rw [hfound] at hreport
      cases hcheck : t.check data with
      | ok _ => exact absurd hcheck hrefused
      | error m =>
        rw [hcheck] at hreport
        exact ⟨v, m, rfl, rfl, Except.error.inj hreport, of_decide_eq_true hfails,
          hsettled.declared.nodup_keys.filter _⟩

/-- Of two pages with lists of items, the last item of the second page has no value. -/
theorem check_of_find?_nested :
    ∃ t m, (ofCommands nested).find? ⟨"page", []⟩ = some t ∧
      let data := Value.list
        [.record [("list", .record [("item", .null)])],
          .record [("list", .list
            [.record [("item", .text "a")],
              .record [("item", .list [.text "b", .record [("name", .text "c")]])]])]]
      t.check data ≠ .ok () ∧ t.check data = .error m ∧
        (Fault.missingKeys m).report =
          .missingKeys "ROOT[1].list[1].item[1]" ["value"] := by
  have hrun : ((ofCommands nested).find? ⟨"page", []⟩).map (fun t =>
      let data := Value.list
        [.record [("list", .record [("item", .null)])],
          .record [("list", .list
            [.record [("item", .text "a")],
              .record [("item", .list [.text "b", .record [("name", .text "c")]])]])]]
      ((t.check data).toBool,
        ((t.visits data).find? Visit.Fails).map fun v => (v.place, v.missing))) =
          some (false, some ("ROOT[1].list[1].item[1]", ["value"])) := by
    decide +kernel
  obtain ⟨t, ht, hrun⟩ := Option.map_eq_some_iff.mp hrun
  obtain ⟨hrefused, hfirst⟩ := Prod.mk.inj hrun
  have hne : t.check _ ≠ .ok () := fun hok => by
    rw [hok] at hrefused
    exact absurd hrefused (by decide)
  obtain ⟨v, m, hfound, hcheck, hreport, -⟩ := (check_of_find? ht _).2 hne
  rw [hfound] at hfirst
  obtain ⟨hplace, hmissing⟩ := Prod.mk.inj (Option.some.inj hfirst)
  rw [hplace, hmissing] at hreport
  exact ⟨t, m, ht, hne, hcheck, hreport⟩

end Session

end Stencil
