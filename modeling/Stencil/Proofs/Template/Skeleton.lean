import Stencil.Proofs.Outcome
import Stencil.Proofs.Template.Tree
import Stencil.Template.Render
import Stencil.Text.Indent

/-!
# Skeletons

The **skeleton** of a template is what was written to make it: the texts, their configurations and
the keys of the inner templates in the order of their registration. It has neither identities nor
variants, and nothing that can be computed from the texts.

A skeleton can be rendered all by itself (`Skeleton.renderData?`). Every text is indented to the
column at which it stands and read afresh, for each record again, and a placeholder stands for the
inner skeleton under its key, at the placeholder's own column, if there is one. There is no
rendering if one of the texts cannot be read where it stands.
-/

namespace Stencil

/-- A template as it was written. -/
structure Skeleton where
  text : String
  config : Config
  /-- The inner skeletons by their keys, in the order of their registration. -/
  inner : List (String × Skeleton)

namespace Skeleton

mutual

def decEq (s u : Skeleton) : Decidable (s = u) :=
  match s, u with
  | ⟨text, config, inner⟩, ⟨text', config', inner'⟩ =>
    match decEqInner inner inner' with
    | isTrue hinner => decidable_of_iff (text = text' ∧ config = config') (by simp [hinner])
    | isFalse hinner => isFalse (by simp [hinner])

def decEqInner : (inner inner' : List (String × Skeleton)) → Decidable (inner = inner')
  | [], [] => isTrue rfl
  | [], _ :: _ => isFalse (by simp)
  | _ :: _, [] => isFalse (by simp)
  | (key, s) :: rest, (key', u) :: rest' =>
    match s.decEq u, decEqInner rest rest' with
    | isTrue hs, isTrue hrest => decidable_of_iff (key = key') (by simp [hs, hrest])
    | isFalse hs, _ => isFalse (by simp [hs])
    | isTrue _, isFalse hrest => isFalse (by simp [hrest])

end

instance : DecidableEq Skeleton := decEq

/-! ### The order of inner skeletons -/

mutual

/-- The same skeleton up to the order of the inner skeletons, at every node: those of a node may be
rearranged, and so may what is below them. -/
inductive Rearranged : Skeleton → Skeleton → Prop where
  | node {text : String} {config : Config} {inner below rearranged : List (String × Skeleton)}
    (items : RearrangedInner inner below) (order : below.Perm rearranged) :
    Rearranged ⟨text, config, inner⟩ ⟨text, config, rearranged⟩

/-- Inner skeletons one by one the same up to the order below them. -/
inductive RearrangedInner : List (String × Skeleton) → List (String × Skeleton) → Prop where
  | nil : RearrangedInner [] []
  | cons {key : String} {s u : Skeleton} {rest rest' : List (String × Skeleton)}
    (head : Rearranged s u) (tail : RearrangedInner rest rest') :
    RearrangedInner ((key, s) :: rest) ((key, u) :: rest')

end

theorem RearrangedInner.forall₂ {inner inner' : List (String × Skeleton)} :
    RearrangedInner inner inner' →
      List.Forall₂ (fun entry entry' => entry.1 = entry'.1 ∧ entry.2.Rearranged entry'.2) inner
        inner'
  | .nil => .nil
  | .cons head tail => .cons ⟨rfl, head⟩ tail.forall₂

/-- What a rearrangement leaves as it is: the text, the configuration and the keys but for their
order. -/
theorem Rearranged.here {s u : Skeleton} (h : s.Rearranged u) :
    s.text = u.text ∧ s.config = u.config ∧
      (s.inner.map Prod.fst).Perm (u.inner.map Prod.fst) := by
  cases h with
  | node items order =>
    have hkeys := Lists.map_eq_map_of_forall₂ items.forall₂ (f := Prod.fst) (g := Prod.fst)
      fun entry _ entry' _ h => h.1.symm
    refine ⟨rfl, rfl, ?_⟩
    rw [← hkeys]
    exact order.map Prod.fst

/-- Under one key there are rearranged skeletons, if no key is there twice. -/
theorem Rearranged.of_mem_inner {s u : Skeleton} (h : s.Rearranged u)
    (distinct : (s.inner.map Prod.fst).Nodup) {key : String} {i j : Skeleton}
    (hi : (key, i) ∈ s.inner) (hj : (key, j) ∈ u.inner) : i.Rearranged j := by
  cases h with
  | node items order =>
    -- `j` comes from some skeleton under the same key, and there is only one
    obtain ⟨⟨key', i'⟩, hi', rfl, hrearranged⟩ :=
      Lists.exists_of_mem_right items.forall₂ (order.mem_iff.mpr hj)
    obtain rfl : i' = i := Entries.eq_of_mem distinct hi' hi
    exact hrearranged

end Skeleton

/-! ### The skeleton of a template -/

namespace Template

mutual

/-- What was written to make a template. -/
def skeleton (t : Template) : Skeleton :=
  match t with
  | { text, config, inner, .. } => { text, config, inner := skeletonInner inner }

def skeletonInner : List (String × Template) → List (String × Skeleton)
  | [] => []
  | (key, t) :: rest => (key, t.skeleton) :: skeletonInner rest

end

theorem skeletonInner_eq_map (inner : List (String × Template)) :
    skeletonInner inner = inner.map fun entry => (entry.1, entry.2.skeleton) := by
  induction inner with
  | nil => rw [skeletonInner, List.map_nil]
  | cons entry rest ih => rw [skeletonInner, ih, List.map_cons]

theorem skeleton_eq (t : Template) :
    t.skeleton = ⟨t.text, t.config, t.inner.map fun entry => (entry.1, entry.2.skeleton)⟩ := by
  cases t
  rw [skeleton, skeletonInner_eq_map]

@[simp] theorem text_skeleton (t : Template) : t.skeleton.text = t.text := by
  rw [skeleton_eq]

@[simp] theorem config_skeleton (t : Template) : t.skeleton.config = t.config := by
  rw [skeleton_eq]

@[simp] theorem keys_inner_skeleton (t : Template) :
    t.skeleton.inner.map Prod.fst = t.innerKeys := by
  rw [skeleton_eq, List.map_map]
  rfl

theorem mem_inner_skeleton {t i : Template} {key : String} (h : (key, i) ∈ t.inner) :
    (key, i.skeleton) ∈ t.skeleton.inner := by
  rw [skeleton_eq]
  exact List.mem_map.mpr ⟨(key, i), h, rfl⟩

theorem lookup_inner_skeleton (t : Template) (key : String) :
    t.skeleton.inner.lookup key = (t.inner? key).map skeleton := by
  rw [skeleton_eq, inner?]
  exact Entries.lookup_map_values skeleton t.inner key

end Template

/-! ### Rendering a skeleton -/

/-- The text that a section of a text gives for a record, if `bound` renders what is bound to a
key, if anything is. -/
def Section.fillBound? (bound : String → Option (Nat → List Value → Option String))
    (record : Value) : Section → Option String
  | static text => some text
  | dynamic key column | inner key column =>
    match bound key with
    | some render => render column (record.recordsAt key)
    | none => some (record.scalarAt key)

namespace Skeleton

mutual

/-- The rendering for one record at a column. -/
def renderRecord? (s : Skeleton) (column : Nat) (record : Value) : Option String :=
  match s with
  | { text, inner, .. } =>
    (Section.parse (Text.indent column text)).toOption.bind fun sections =>
      (sections.mapM (Section.fillBound? (fun key => renderBound? inner key) record)).map
        String.join

/-- How the inner skeleton under a key is rendered at a column for a sequence of records. -/
def renderBound? : List (String × Skeleton) → String →
    Option (Nat → List Value → Option String)
  | [], _ => none
  | (k, s) :: rest, key =>
    if k = key then
      some fun column records =>
        (records.mapM fun record => s.renderRecord? column record).map (stackAt column)
    else renderBound? rest key

end

/-- The rendering for a sequence of records at a column: from the second on, each stands on a line
of its own that starts with as many spaces. -/
def renderRecords? (s : Skeleton) (column : Nat) (records : List Value) : Option String :=
  (records.mapM (s.renderRecord? column)).map (stackAt column)

/-- The rendering of data: that of its records, or of one record without fields if there are
none. -/
def renderData? (s : Skeleton) (data : Value) : Option String :=
  match data.records with
  | [] => s.renderRecord? 0 (.record [])
  | records => s.renderRecords? 0 records

theorem renderBound?_eq (inner : List (String × Skeleton)) (key : String) :
    renderBound? inner key = (inner.lookup key).map renderRecords? := by
  induction inner with
  | nil => rw [renderBound?, List.lookup_nil, Option.map_none]
  | cons entry rest ih =>
    obtain ⟨k, s⟩ := entry
    rw [renderBound?, ih, Entries.lookup_cons_eq_ite]
    split
    · rfl
    · rfl

theorem renderRecord?_eq (s : Skeleton) (column : Nat) (record : Value) :
    s.renderRecord? column record =
      (Section.parse (Text.indent column s.text)).toOption.bind fun sections =>
        (sections.mapM (Section.fillBound?
          (fun key => (s.inner.lookup key).map renderRecords?) record)).map String.join := by
  cases s
  rw [renderRecord?]
  simp only [renderBound?_eq]

end Skeleton

end Stencil
