import Stencil.Proofs.Template.Alike
import Stencil.Proofs.Template.Placeholders

/-!
# What a template can see of its data

A template looks at a record through its keys. Of a key that it declares and that is not bound, it
sees whether it is there and what text is under it, if any. Under a bound key it sees the records
that its inner template is repeated for, through the keys of the inner template. It sees nothing
else: neither other fields, nor the order of fields, nor how the records under a key are written
down.

Two records are **indistinct** for a template (`Template.Indistinct`) when all that it can see of
them is the same. The relation follows the tree of the template, as the check, the estimate and the
rendering do, and each of them gives the same for indistinct records (`Indistinct.checkRecord`,
`Indistinct.estimate`, `Indistinct.renderRecord`). The check and the estimate do not even look at
texts, so the relation has as a parameter what is seen of a value.

A rendering looks up the keys as they stand in its variant. These are the declared ones as long as
they have no newlines, which is what `Session.observations_of_find?` asks for.
-/

namespace Stencil

namespace Template

variable {γ : Type}

mutual

/-- A template sees the same of two records, if `view` is what it sees of the value under a key that
is not bound. -/
def Indistinct (view : Value → γ) (t : Template) (record record' : Value) : Prop :=
  match t with
  | { keys, inner, .. } =>
    (∀ key ∈ keys, key ∉ inner.map Prod.fst →
      (record.field? key).map view = (record'.field? key).map view) ∧
      IndistinctInner view inner record record'

/-- Inner templates see the same records under their keys, one by one. -/
def IndistinctInner (view : Value → γ) : List (String × Template) → Value → Value → Prop
  | [], _, _ => True
  | (key, t) :: rest, record, record' =>
    List.Forall₂ (fun r r' => t.Indistinct view r r') (record.recordsAt key)
      (record'.recordsAt key) ∧ IndistinctInner view rest record record'

end

mutual

def decIndistinct [DecidableEq γ] (view : Value → γ) (t : Template) (record record' : Value) :
    Decidable (t.Indistinct view record record') :=
  match t with
  | { inner, .. } =>
    have := decIndistinctInner view inner record record'
    inferInstanceAs (Decidable (_ ∧ _))

def decIndistinctInner [DecidableEq γ] (view : Value → γ) :
    (inner : List (String × Template)) → (record record' : Value) →
      Decidable (IndistinctInner view inner record record')
  | [], _, _ => isTrue trivial
  | (_, t) :: rest, record, record' =>
    have := t.decIndistinct view
    have := decIndistinctInner view rest record record'
    inferInstanceAs (Decidable (_ ∧ _))

end

instance [DecidableEq γ] (view : Value → γ) (t : Template) (record record' : Value) :
    Decidable (t.Indistinct view record record') :=
  t.decIndistinct view record record'

variable {view : Value → γ} {t : Template} {record record' : Value}

theorem indistinctInner_iff {inner : List (String × Template)} :
    IndistinctInner view inner record record' ↔ ∀ key i, (key, i) ∈ inner →
      List.Forall₂ (i.Indistinct view) (record.recordsAt key) (record'.recordsAt key) := by
  induction inner with
  | nil => simp [IndistinctInner]
  | cons entry rest ih =>
    obtain ⟨key, i⟩ := entry
    rw [IndistinctInner, ih]
    refine ⟨?_, ?_⟩
    · rintro ⟨hhead, hrest⟩ k j hmem
      rcases List.mem_cons.mp hmem with heq | hmem
      · obtain ⟨rfl, rfl⟩ := Prod.mk.inj heq
        exact hhead
      · exact hrest k j hmem
    · intro h
      exact ⟨h key i List.mem_cons_self, fun k j hmem => h k j (List.mem_cons_of_mem _ hmem)⟩

/-- **What a template sees of a record**: what is under the keys that are declared and not bound,
and through the inner templates, the records under the bound keys. -/
theorem indistinct_iff :
    t.Indistinct view record record' ↔
      (∀ key ∈ t.keys, key ∉ t.innerKeys →
        (record.field? key).map view = (record'.field? key).map view) ∧
      ∀ key i, (key, i) ∈ t.inner →
        List.Forall₂ (i.Indistinct view) (record.recordsAt key) (record'.recordsAt key) := by
  cases t
  rw [Indistinct, indistinctInner_iff]
  rfl

theorem indistinct_refl (t : Template) (record : Value) : t.Indistinct view record record := by
  induction t using Template.induction generalizing record with
  | node t ih =>
    refine indistinct_iff.mpr ⟨fun _ _ _ => rfl, fun key i hmem => ?_⟩
    exact List.forall₂_same.mpr fun r _ => ih key i hmem r

/-- **What does not matter** of one record: all of it but what is seen under the keys that are not
bound, and the records under those that are. -/
theorem indistinct_of_recordsAt
    (hfree : ∀ key ∈ t.keys, key ∉ t.innerKeys →
      (record.field? key).map view = (record'.field? key).map view)
    (hbound : ∀ key ∈ t.innerKeys, record.recordsAt key = record'.recordsAt key) :
    t.Indistinct view record record' := by
  refine indistinct_iff.mpr ⟨hfree, fun key i hmem => ?_⟩
  rw [hbound key (List.mem_map.mpr ⟨(key, i), hmem, rfl⟩)]
  exact List.forall₂_same.mpr fun r _ => i.indistinct_refl r

/-! ### Checks -/

theorem checkItems_congr {check : Value → Except MissingKeys Unit} {items items' : List Value}
    (h : List.Forall₂ (fun r r' => check r = check r') items items') (start : Nat) :
    checkItems check start items = checkItems check start items' := by
  induction h generalizing start with
  | nil => rfl
  | cons hhead _ ih => rw [checkItems, checkItems, hhead, ih]

theorem checkInner_congr {inner : List (String × Template)}
    (h : ∀ key i, (key, i) ∈ inner → List.Forall₂ (fun r r' => i.checkRecord r = i.checkRecord r')
      (record.recordsAt key) (record'.recordsAt key)) :
    checkInner inner record = checkInner inner record' := by
  induction inner with
  | nil => rw [checkInner, checkInner]
  | cons entry rest ih =>
    obtain ⟨key, i⟩ := entry
    rw [checkInner, checkInner, checkItems_congr (h key i List.mem_cons_self),
      ih fun k j hmem => h k j (List.mem_cons_of_mem _ hmem)]

/-- **The check goes alike** for indistinct records, up to the fault that it finds. -/
theorem Indistinct.checkRecord (h : t.Indistinct view record record') :
    t.checkRecord record = t.checkRecord record' := by
  induction t using Template.induction generalizing record record' with
  | node t ih =>
    obtain ⟨hfree, hbound⟩ := indistinct_iff.mp h
    have hinner : checkInner t.inner record = checkInner t.inner record' :=
      checkInner_congr fun key i hmem => (hbound key i hmem).imp fun _ _ hr => ih key i hmem hr
    have hmissing : missingKeys t.keys t.binds record = missingKeys t.keys t.binds record' := by
      refine List.filter_congr fun key hkey => ?_
      cases hbinds : t.binds key with
      | true => rfl
      | false =>
        have hview := hfree key hkey (of_decide_eq_false hbinds)
        rw [← Option.isNone_map (f := view), hview, Option.isNone_map]
    rw [Template.checkRecord_eq, Template.checkRecord_eq, hinner, hmissing]

/-! ### Estimates -/

/-- **The estimate is the same** for sequences of indistinct records. -/
theorem estimate_congr {records records' : List Value}
    (h : List.Forall₂ (t.Indistinct view) records records') :
    t.estimate records = t.estimate records' := by
  induction t using Template.induction generalizing records records' with
  | node t ih =>
    have hinner : ∀ entry ∈ t.inner,
        (records.map fun r => entry.2.estimate (r.recordsAt entry.1)) =
          records'.map fun r => entry.2.estimate (r.recordsAt entry.1) := by
      intro entry hmem
      refine (Lists.map_eq_map_of_forall₂ h fun r _ r' _ hr => ?_).symm
      exact (ih entry.1 entry.2 hmem ((indistinct_iff.mp hr).2 entry.1 entry.2 hmem)).symm
    rw [estimate_eq, estimate_eq, h.length_eq]
    refine congrArg _ (congrArg List.sum (List.map_congr_left fun entry hmem => ?_))
    rw [hinner entry hmem]

/-! ### Renderings -/

theorem renderRecords_congr {column : Nat} {records records' : List Value}
    (h : List.Forall₂ (fun r r' => t.renderRecord column r = t.renderRecord column r') records
      records') : t.renderRecords column records = t.renderRecords column records' :=
  congrArg (stackAt column) (Lists.map_eq_map_of_forall₂ h fun _ _ _ _ hr => hr.symm).symm

/-- **The rendering is the same** for records of which the same texts are seen, at every column of a
template with its keys in one line each. -/
theorem Indistinct.renderRecord (ht : t.All Settled)
    (hplain : t.All fun n => ∀ key ∈ n.keys, '\n' ∉ key.toList) {column : Nat}
    (hcolumn : column ∈ t.columns) (h : t.Indistinct Value.text? record record') :
    t.renderRecord column record = t.renderRecord column record' := by
  induction t using Template.induction generalizing column record record' with
  | node t ih =>
    obtain ⟨hfree, hbound⟩ := indistinct_iff.mp h
    obtain ⟨raw, -, hsections⟩ := ht.here.exists_parse hcolumn
    rw [renderRecord_eq, renderRecord_eq, variantFor_eq hsections]
    refine congrArg String.join (List.map_congr_left fun s hs => ?_)
    cases s with
    | static text => rfl
    | dynamic key c =>
      -- the key that is looked up is a declared one that is not bound
      have hkeys := ht.here.exists_key_iff hsections (Or.inr hplain.here) key false
      rw [← Section.exists_dynamic_mem_iff] at hkeys
      obtain ⟨hkey, hbinds⟩ := hkeys.mp ⟨c, hs⟩
      have htext := hfree key hkey (of_decide_eq_false hbinds)
      have hscalar : ∀ r : Value,
          r.scalarAt key = (((r.field? key).map Value.text?).getD none).getD "" := by
        intro r
        unfold Value.scalarAt
        cases r.field? key with
        | none => rfl
        | some v => rfl
      rw [Section.fill, Section.fill, hscalar, hscalar, htext]
    | inner key c =>
      obtain ⟨i, hi, hc⟩ := ht.here.exists_inner hsections hs
      have hmem := Entries.mem_of_lookup_eq_some hi
      have hrecords := renderRecords_congr ((hbound key i hmem).imp fun _ _ hr =>
        ih key i hmem (ht.of_mem_inner hmem) (hplain.of_mem_inner hmem) hc hr)
      simp only [Section.fill, hi, Option.map_some, hrecords]

/-! ### Data -/

variable {data data' : Value}

/-- The check and the estimate of data are the same if the records are indistinct, whatever is seen
of a value. -/
theorem check_eq_and_estimateData_eq
    (h : List.Forall₂ (t.Indistinct view) data.records data'.records) :
    t.check data = t.check data' ∧ t.estimateData data = t.estimateData data' :=
  ⟨checkItems_congr (h.imp fun _ _ hr => hr.checkRecord) 0, estimate_congr h⟩

theorem renderUnchecked_congr (ht : t.All Settled)
    (hplain : t.All fun n => ∀ key ∈ n.keys, '\n' ∉ key.toList)
    (h : List.Forall₂ (t.Indistinct Value.text?) data.records data'.records) :
    t.renderUnchecked data = t.renderUnchecked data' := by
  have hrecords : t.renderRecords 0 data.records = t.renderRecords 0 data'.records :=
    renderRecords_congr (h.imp fun _ _ hr => hr.renderRecord ht hplain ht.here.zero_mem)
  unfold renderUnchecked
  -- without records, both are rendered with nothing filled in
  revert h hrecords
  cases data.records with
  | nil =>
    intro h _
    rw [List.forall₂_nil_left_iff.mp h]
  | cons r rest =>
    intro h hrecords
    obtain ⟨r', rest', -, -, heq⟩ := List.forall₂_cons_left_iff.mp h
    rw [heq] at hrecords ⊢
    exact hrecords

end Template

/-! ### Templates that can be made -/

namespace Session

/-- **Only what is seen through declared and bound keys can be observed**, for every template that
can be made with its keys in one line each. Data whose records are indistinct is checked with the
same outcome, is rendered to the same text, and has the same estimate.

So it does not matter what other fields a record has and in which order they are, nor what there is
under a bound key but for its records: nothing there is as good as no key, and a single unit is as
good as a list of it. -/
theorem observations_of_find? {commands : List Command} {address : Address} {t : Template}
    (h : (ofCommands commands).find? address = some t)
    (hplain : t.All fun n => ∀ key ∈ n.keys, '\n' ∉ key.toList) :
    (∀ data data' : Value, List.Forall₂ (t.Indistinct Value.text?) data.records data'.records →
      t.check data = t.check data' ∧ t.renderUnchecked data = t.renderUnchecked data' ∧
        t.estimateData data = t.estimateData data') ∧
    (∀ record record' : Value,
      (∀ key ∈ t.keys, key ∉ t.innerKeys →
        (record.field? key).map Value.text? = (record'.field? key).map Value.text?) →
      (∀ key ∈ t.innerKeys, record.recordsAt key = record'.recordsAt key) →
        t.Indistinct Value.text? record record') := by
  have ht := all_settled_of_find? h
  refine ⟨fun data data' hdata => ?_, fun _ _ => Template.indistinct_of_recordsAt⟩
  obtain ⟨hcheck, hestimate⟩ := Template.check_eq_and_estimateData_eq hdata
  exact ⟨hcheck, Template.renderUnchecked_congr ht hplain hdata, hestimate⟩

theorem observations_of_find?_nested :
    ∃ t, (ofCommands nested).find? ⟨"page", []⟩ = some t ∧
      let data := Value.record [("list", .record [("item", .list [.text "a", .text "b"])])]
      let data' := Value.list [.record [("id", .text "7"), ("list", .list [.record
        [("item", .list [.record [("note", .null), ("value", .text "a")], .text "b"])]])]]
      t.All (fun n => ∀ key ∈ n.keys, '\n' ∉ key.toList) ∧
        List.Forall₂ (t.Indistinct Value.text?) data.records data'.records ∧
          t.check data = t.check data' ∧
            t.renderUnchecked data' = "<ul>\n  <li>\n    a\n    b\n  </li>\n</ul>" := by
  have hpage : ((ofCommands nested).find? ⟨"page", []⟩).map (fun t =>
      let data := Value.record [("list", .record [("item", .list [.text "a", .text "b"])])]
      let data' := Value.list [.record [("id", .text "7"), ("list", .list [.record
        [("item", .list [.record [("note", .null), ("value", .text "a")], .text "b"])]])]]
      (decide (t.All fun n => ∀ key ∈ n.keys, '\n' ∉ key.toList),
        decide (List.Forall₂ (t.Indistinct Value.text?) data.records data'.records),
        t.renderUnchecked data)) =
          some (true, true, "<ul>\n  <li>\n    a\n    b\n  </li>\n</ul>") := by
    decide +kernel
  obtain ⟨t, ht, hpage⟩ := Option.map_eq_some_iff.mp hpage
  obtain ⟨hplain, hpage⟩ := Prod.mk.inj hpage
  obtain ⟨hdata, hrender⟩ := Prod.mk.inj hpage
  have hplain := of_decide_eq_true hplain
  have hdata := of_decide_eq_true hdata
  obtain ⟨hcheck, hsame, -⟩ := (observations_of_find? ht hplain).1 _ _ hdata
  exact ⟨t, ht, hplain, hdata, hcheck, hsame.symm.trans hrender⟩

end Session

end Stencil
