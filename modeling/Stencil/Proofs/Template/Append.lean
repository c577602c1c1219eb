import Mathlib.Algebra.BigOperators.Group.List.Basic
import Stencil.Proofs.Session
import Stencil.Proofs.Template.Alike

/-!
# Sequences of records in two parts

Records are taken one after another, so what is done with a sequence in two parts is done with each
part by itself and put together: the renderings stand one below the other (`renderRecords_append`),
the check goes on with the second part when the first is accepted (`checkItems_append`), and the
estimates are added (`estimate_append`).

The parts must not be empty. Between two parts there is a line break, and no line break is put next
to nothing; and an empty sequence is counted as one record.

The main statement is `observations_append`. It is about data that is a list, and about lists of
records that stand under a bound key, at any depth.
-/

namespace Stencil

variable {xs ys : List Value}

/-- The same fault, `count` records further on. -/
def MissingKeys.later (count : Nat) (m : MissingKeys) : MissingKeys :=
  match m.path with
  | .item index :: rest => { m with path := .item (index + count) :: rest }
  | _ => m

/-- **Renderings in two parts** stand one below the other. -/
theorem stackAt_append {above below : List String} (habove : above ≠ []) (hbelow : below ≠ [])
    (column : Nat) :
    stackAt column (above ++ below) = stackAt column above ++ "\n" ++
      String.ofList (List.replicate column ' ') ++ stackAt column below := by
  have hbreak : String.ofList ('\n' :: List.replicate column ' ') =
      "\n" ++ String.ofList (List.replicate column ' ') := by
    rw [← String.toList_inj]
    simp
  unfold stackAt
  rw [String.intercalate_append_of_ne_nil habove hbelow, hbreak]
  simp only [String.append_assoc]

/-! ### Checks -/

/-- Records with later indices are checked alike, and a fault is located later. -/
theorem checkItems_add (check : Value → Except MissingKeys Unit) (start count : Nat)
    (items : List Value) :
    checkItems check (start + count) items =
      (checkItems check start items).mapError (.later count) := by
  induction items generalizing start with
  | nil => rfl
  | cons item rest ih =>
    have hnext : start + count + 1 = start + 1 + count := by omega
    rw [checkItems, checkItems, hnext, ih, Outcome.mapError_bind]
    cases check item with
    | ok _ => rfl
    | error m => rfl

/-- **A check in two parts**: the second part is checked when the first is accepted, with the
indices that its records have in the whole. -/
theorem checkItems_append (check : Value → Except MissingKeys Unit) (start : Nat)
    (xs ys : List Value) :
    checkItems check start (xs ++ ys) = (do
      checkItems check start xs
      (checkItems check start ys).mapError (.later xs.length)) := by
  rw [← checkItems_add]
  induction xs generalizing start with
  | nil => rfl
  | cons item rest ih =>
    have hlength : start + (item :: rest).length = start + 1 + rest.length := by
      rw [List.length_cons]
      omega
    rw [List.cons_append, checkItems, checkItems, ih, hlength]
    cases check item with
    | ok _ => rfl
    | error m => rfl

/-- A fault of a sequence is at one of its records. -/
theorem exists_item_of_checkItems_eq_error {check : Value → Except MissingKeys Unit} {start : Nat}
    {items : List Value} {m : MissingKeys} (h : checkItems check start items = .error m) :
    ∃ index rest, m.path = .item index :: rest := by
  induction items generalizing start with
  | nil => cases h
  | cons item rest ih =>
    rw [checkItems] at h
    cases hitem : check item with
    | ok _ =>
      rw [hitem] at h
      exact ih h
    | error below =>
      rw [hitem] at h
      obtain rfl := Except.error.inj h
      exact ⟨start, below.path, rfl⟩

/-- How a fault at an item is reported. -/
theorem report_item {m : MissingKeys} {index : Nat} {rest : DataPath}
    (h : m.path = .item index :: rest) :
    (Fault.missingKeys m).report = .missingKeys
      ("ROOT[" ++ toString index ++ "]" ++ String.join (rest.map PathStep.text)) m.keys := by
  have hopen : "ROOT" ++ ("[" ++ toString index ++ "]") = "ROOT[" ++ toString index ++ "]" := by
    rw [← String.toList_inj]
    simp
  show Report.missingKeys (DataPath.text m.path) m.keys = _
  rw [h, DataPath.text, List.map_cons, String.join_cons, PathStep.text, ← String.append_assoc,
    hopen]

namespace Template

/-! ### Renderings and estimates -/

theorem renderRecords_append (t : Template) (hxs : xs ≠ []) (hys : ys ≠ []) (column : Nat) :
    t.renderRecords column (xs ++ ys) = t.renderRecords column xs ++ "\n" ++
      String.ofList (List.replicate column ' ') ++ t.renderRecords column ys := by
  unfold renderRecords
  rw [List.map_append]
  exact stackAt_append (mt List.map_eq_nil_iff.mp hxs) (mt List.map_eq_nil_iff.mp hys) column

/-- **Estimates in two parts** are added. The records under the bound keys are counted record by
record, so only the count of the records themselves needs parts that are not empty. -/
theorem estimate_append (t : Template) (hxs : xs ≠ []) (hys : ys ≠ []) :
    t.estimate (xs ++ ys) = t.estimate xs + t.estimate ys := by
  have hcount : max 1 (xs ++ ys).length = max 1 xs.length + max 1 ys.length := by
    have hx := List.length_pos_iff.mpr hxs
    have hy := List.length_pos_iff.mpr hys
    rw [List.length_append]
    omega
  have hinner : (t.inner.map fun entry =>
      ((xs ++ ys).map fun record => entry.2.estimate (record.recordsAt entry.1)).sum).sum =
        (t.inner.map fun entry =>
          (xs.map fun record => entry.2.estimate (record.recordsAt entry.1)).sum).sum +
        (t.inner.map fun entry =>
          (ys.map fun record => entry.2.estimate (record.recordsAt entry.1)).sum).sum := by
    simp only [List.map_append, List.sum_append]
    exact List.sum_map_add
  rw [estimate_eq, estimate_eq, estimate_eq, hcount, hinner, Nat.add_mul]
  omega

/-! ### Data -/

/-- **Sequences of records in two parts**, of data and under a bound key at any depth, for every
template. The rendering is that of the first part, a line break up to the column, and that of the
second. The check ends with the fault of the first part, if there is one; else a fault of the second
part is located as many records further on as the first has. The estimates are added. -/
theorem observations_append (t : Template) (hxs : xs ≠ []) (hys : ys ≠ []) :
    t.renderUnchecked (.list (xs ++ ys)) =
        t.renderUnchecked (.list xs) ++ "\n" ++ t.renderUnchecked (.list ys) ∧
      t.check (.list (xs ++ ys)) = (do
        t.check (.list xs)
        (t.check (.list ys)).mapError (.later xs.length)) ∧
      (∀ m, t.check (.list ys) = .error m → ∃ index rest, m.path = .item index :: rest ∧
        m.later xs.length = { path := .item (index + xs.length) :: rest, keys := m.keys } ∧
        (Fault.missingKeys m).report = .missingKeys
          ("ROOT[" ++ toString index ++ "]" ++ String.join (rest.map PathStep.text)) m.keys ∧
        (Fault.missingKeys (m.later xs.length)).report = .missingKeys
          ("ROOT[" ++ toString (index + xs.length) ++ "]" ++ String.join (rest.map PathStep.text))
          m.keys) ∧
      t.estimateData (.list (xs ++ ys)) = t.estimateData (.list xs) + t.estimateData (.list ys) ∧
      ∀ path key i (record : Value), t.find? (path ++ [key]) = some i →
        record.field? key = some (.list (xs ++ ys)) →
          (∀ column, i.renderRecords column (record.recordsAt key) =
            i.renderRecords column xs ++ "\n" ++ String.ofList (List.replicate column ' ') ++
              i.renderRecords column ys) ∧
          i.checkRecords (record.recordsAt key) = (do
            i.checkRecords xs
            (i.checkRecords ys).mapError (.later xs.length)) ∧
          i.estimate (record.recordsAt key) = i.estimate xs + i.estimate ys := by
  refine ⟨?render, checkItems_append _ 0 xs ys, fun m hm => ?fault, t.estimate_append hxs hys,
    fun path key i record _ hrecord => ?below⟩
  case render =>
    have hwhole : xs ++ ys ≠ [] := List.append_ne_nil_of_left_ne_nil hxs ys
    rw [renderUnchecked_list t hwhole, renderUnchecked_list t hxs, renderUnchecked_list t hys,
      renderRecords_append t hxs hys, List.replicate_zero, String.ofList_nil, String.append_empty]
  case fault =>
    obtain ⟨index, rest, hpath⟩ := exists_item_of_checkItems_eq_error hm
    have hlater : m.later xs.length =
        { path := .item (index + xs.length) :: rest, keys := m.keys } := by
      unfold MissingKeys.later
      rw [hpath]
    refine ⟨index, rest, hpath, hlater, ?_, ?_⟩
    · exact report_item hpath
    · rw [hlater]
      exact report_item rfl
  case below =>
    -- the laws of a template hold for every list of records, so they hold for the one found
    have hfound : record.recordsAt key = xs ++ ys := by
      unfold Value.recordsAt
      rw [hrecord]
      rfl
    rw [hfound]
    exact ⟨i.renderRecords_append hxs hys, checkItems_append _ 0 xs ys, i.estimate_append hxs hys⟩

/-- A list of two items. -/
def fullList : Value :=
  .record [("item", .list [.text "a", .text "b"])]

/-- A list of two items, of which the second has no value. -/
def brokenList : Value :=
  .record [("item", .list [.text "c", .record []])]

theorem observations_append_nested :
    ∃ t i, (Session.ofCommands Session.nested).find? ⟨"page", []⟩ = some t ∧
      t.find? ["list"] = some i ∧
      let xs := [Value.record [("list", fullList)]]
      let ys := [Value.record [("list", brokenList)]]
      xs ≠ [] ∧ ys ≠ [] ∧
        t.renderUnchecked (.list (xs ++ ys)) = "<ul>\n  <li>\n    a\n    b\n  </li>\n</ul>" ++
          "\n" ++ "<ul>\n  <li>\n    c\n    \n  </li>\n</ul>" ∧
        t.check (.list (xs ++ ys)) =
          .error ⟨[.item 1, .field "list", .item 0, .field "item", .item 1], ["value"]⟩ ∧
        t.estimateData (.list (xs ++ ys)) = t.estimateData (.list xs) + t.estimateData (.list ys) ∧
        i.renderRecords 2
            ((Value.record [("list", .list [fullList, brokenList])]).recordsAt "list") =
          "<li>\n    a\n    b\n  </li>" ++ "\n" ++ "  " ++ "<li>\n    c\n    \n  </li>" := by
  have hpage : ((Session.ofCommands Session.nested).find? ⟨"page", []⟩).map (fun t =>
      (t.renderUnchecked (.list [.record [("list", fullList)]]),
        t.renderUnchecked (.list [.record [("list", brokenList)]]),
        t.check (.list [.record [("list", fullList)]]),
        t.check (.list [.record [("list", brokenList)]]))) =
          some ("<ul>\n  <li>\n    a\n    b\n  </li>\n</ul>",
            "<ul>\n  <li>\n    c\n    \n  </li>\n</ul>", .ok (),
            .error ⟨[.item 0, .field "list", .item 0, .field "item", .item 1], ["value"]⟩) := by
    decide +kernel
  have hlist : ((Session.ofCommands Session.nested).find? ⟨"page", ["list"]⟩).map (fun i =>
      (i.renderRecords 2 [fullList], i.renderRecords 2 [brokenList])) =
          some ("<li>\n    a\n    b\n  </li>", "<li>\n    c\n    \n  </li>") := by
    decide +kernel
  obtain ⟨t, ht, hpage⟩ := Option.map_eq_some_iff.mp hpage
  obtain ⟨i, hi, hlist⟩ := Option.map_eq_some_iff.mp hlist
  obtain ⟨hrender, hrender', hcheck, hcheck'⟩ := by simpa only [Prod.mk.injEq] using hpage
  obtain ⟨hfull, hbroken⟩ := Prod.mk.inj hlist
  have hfound : t.find? ["list"] = some i := by
    obtain ⟨root, hroot, hi⟩ := Session.find?_eq_some_iff.mp hi
    obtain ⟨root', hroot', hpage⟩ := Session.find?_eq_some_iff.mp ht
    obtain rfl := Option.some.inj (hroot.symm.trans hroot')
    obtain rfl := Option.some.inj hpage
    exact hi
  -- once for the two pages, and once for the two lists on one page
  obtain ⟨hwhole, hchecked, -, hestimate, -⟩ := @observations_append
    [.record [("list", fullList)]] [.record [("list", brokenList)]] t
    (List.cons_ne_nil _ _) (List.cons_ne_nil _ _)
  obtain ⟨-, -, -, -, hbelow⟩ := @observations_append [fullList] [brokenList] t
    (List.cons_ne_nil _ _) (List.cons_ne_nil _ _)
  obtain ⟨hstacked, -⟩ := hbelow [] "list" i (.record [("list", .list [fullList, brokenList])])
    hfound rfl
  rw [hrender, hrender'] at hwhole
  rw [hcheck, hcheck'] at hchecked
  have hblock := hstacked 2
  rw [hfull, hbroken] at hblock
  exact ⟨t, i, ht, hfound, List.cons_ne_nil _ _, List.cons_ne_nil _ _, hwhole, hchecked, hestimate,
    hblock⟩

end Template

end Stencil
