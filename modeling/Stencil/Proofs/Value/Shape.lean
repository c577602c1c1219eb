import Stencil.Proofs.Entries
import Stencil.Template.Render

/-!
# Values with their texts left open

A **shape** is a value with a **leaf** in the place of every text: a name for a text that is still
to be given. Texts for the leaves make a value of it (`Shape.fill`). Shapes are looked at as values
are, and what is found in a value is the shape that is found in its place, filled with the same
texts (`Shape.records_fill`, `Shape.field?_fill`, `Shape.recordsAt_fill`): to look at a value is not
to look at its texts.

A text that is computed from the texts of some leaves is **pieced** together from them (`Pieced`)
when it is a fixed list of pieces, each a fixed text or what a leaf stands for. Such texts can be
put one behind the other and one below the other.
-/

namespace Stencil

/-- A value with its texts left open. -/
inductive Shape (Leaf : Type) where
  | null
  | text (leaf : Leaf)
  | record (fields : List (String × Shape Leaf))
  | list (items : List (Shape Leaf))

namespace Shape

variable {Leaf : Type}

mutual

/-- The value with the given texts in the places of the leaves. -/
def fill (σ : Leaf → String) : Shape Leaf → Value
  | null => .null
  | text leaf => .text (σ leaf)
  | record fields => .record (fillFields σ fields)
  | list items => .list (fillItems σ items)

def fillFields (σ : Leaf → String) : List (String × Shape Leaf) → List (String × Value)
  | [] => []
  | (key, s) :: rest => (key, s.fill σ) :: fillFields σ rest

def fillItems (σ : Leaf → String) : List (Shape Leaf) → List Value
  | [] => []
  | s :: rest => s.fill σ :: fillItems σ rest

end

/-- A leaf is somewhere in a shape. -/
inductive HasLeaf : Shape Leaf → Leaf → Prop where
  | text (leaf : Leaf) : (text leaf).HasLeaf leaf
  | field {fields : List (String × Shape Leaf)} {key : String} {s : Shape Leaf} {leaf : Leaf}
    (mem : (key, s) ∈ fields) (below : s.HasLeaf leaf) : (record fields).HasLeaf leaf
  | item {items : List (Shape Leaf)} {s : Shape Leaf} {leaf : Leaf} (mem : s ∈ items)
    (below : s.HasLeaf leaf) : (list items).HasLeaf leaf

theorem fillFields_eq_map (σ : Leaf → String) (fields : List (String × Shape Leaf)) :
    fillFields σ fields = fields.map fun field => (field.1, field.2.fill σ) := by
  induction fields with
  | nil => rw [fillFields, List.map_nil]
  | cons field rest ih => rw [fillFields, ih, List.map_cons]

theorem fillItems_eq_map (σ : Leaf → String) (items : List (Shape Leaf)) :
    fillItems σ items = items.map (fill σ) := by
  induction items with
  | nil => rw [fillItems, List.map_nil]
  | cons s rest ih => rw [fillItems, ih, List.map_cons]

/-! ### Looking at a shape -/

/-- The units that a template is repeated for. -/
def records : Shape Leaf → List (Shape Leaf)
  | list items => items
  | null => []
  | s => [s]

/-- What is under a key of a unit. -/
def field? (s : Shape Leaf) (key : String) : Option (Shape Leaf) :=
  match s with
  | record fields => fields.lookup key
  | s => if key = Value.implicitField then some s else none

/-- The units under a key of a unit. -/
def recordsAt (s : Shape Leaf) (key : String) : List (Shape Leaf) :=
  match s.field? key with
  | some found => found.records
  | none => []

variable {s r : Shape Leaf} {key : String} {leaf : Leaf}

@[simp] theorem records_fill (σ : Leaf → String) (s : Shape Leaf) :
    (s.fill σ).records = s.records.map (fill σ) := by
  cases s with
  | null | text | record => rfl
  | list items => exact fillItems_eq_map σ items

@[simp] theorem field?_fill (σ : Leaf → String) (s : Shape Leaf) (key : String) :
    (s.fill σ).field? key = (s.field? key).map (fill σ) := by
  cases s with
  | record fields =>
    rw [fill, Value.field?_record, fillFields_eq_map, Entries.lookup_map_values, field?]
  | null | text | list =>
    simp only [fill, Value.field?, field?]
    split
    · rw [Option.map_some, fill]
    · rfl

@[simp] theorem recordsAt_fill (σ : Leaf → String) (s : Shape Leaf) (key : String) :
    (s.fill σ).recordsAt key = (s.recordsAt key).map (fill σ) := by
  rw [Value.recordsAt, field?_fill, recordsAt]
  cases s.field? key with
  | none => rfl
  | some found => exact records_fill σ found

/-! ### The leaves of what is found -/

theorem HasLeaf.of_mem_records (hr : r ∈ s.records) (h : r.HasLeaf leaf) : s.HasLeaf leaf := by
  cases s with
  | null => exact absurd hr List.not_mem_nil
  | list items => exact .item hr h
  | text | record =>
    obtain rfl := List.mem_singleton.mp hr
    exact h

theorem HasLeaf.of_field? (hr : s.field? key = some r) (h : r.HasLeaf leaf) : s.HasLeaf leaf := by
  cases s with
  | record fields => exact .field (Entries.mem_of_lookup_eq_some hr) h
  | null | text | list =>
    simp only [field?, Option.ite_none_right_eq_some, Option.some.injEq] at hr
    rwa [hr.2]

theorem HasLeaf.of_mem_recordsAt (hr : r ∈ s.recordsAt key) (h : r.HasLeaf leaf) :
    s.HasLeaf leaf := by
  unfold recordsAt at hr
  split at hr
  · next found hfound => exact .of_field? hfound (.of_mem_records hr h)
  · exact absurd hr List.not_mem_nil

end Shape

/-! ### Texts made of pieces -/

/-- A part of a text: a fixed text, or the text of a leaf. -/
inductive Piece (Leaf : Type) where
  | fixed (text : String)
  | leaf (name : Leaf)

/-- What a piece is when the leaves have texts. -/
def Piece.text {Leaf : Type} (σ : Leaf → String) : Piece Leaf → String
  | fixed text => text
  | leaf name => σ name

/-- The texts of pieces one behind the other. -/
def Piece.join {Leaf : Type} (σ : Leaf → String) (pieces : List (Piece Leaf)) : String :=
  String.join (pieces.map (Piece.text σ))

/-- A text computed from the texts of leaves is the same list of pieces whatever these texts are,
and its leaves are among the given ones. -/
def Pieced {Leaf : Type} (given : Leaf → Prop) (f : (Leaf → String) → String) : Prop :=
  ∃ pieces : List (Piece Leaf), (∀ name, .leaf name ∈ pieces → given name) ∧
    ∀ σ, f σ = Piece.join σ pieces

namespace Pieced

variable {Leaf : Type} {given more : Leaf → Prop} {f g : (Leaf → String) → String}

theorem fixed (text : String) : Pieced given fun _ => text := by
  refine ⟨[.fixed text], ?_, fun σ => ?_⟩
  · intro name hmem
    cases List.mem_singleton.mp hmem
  · simp [Piece.join, Piece.text]

theorem leaf {name : Leaf} (h : given name) : Pieced given fun σ => σ name := by
  refine ⟨[.leaf name], ?_, fun σ => ?_⟩
  · intro name' hmem
    obtain rfl := Piece.leaf.inj (List.mem_singleton.mp hmem)
    exact h
  · simp [Piece.join, Piece.text]

theorem append (hf : Pieced given f) (hg : Pieced given g) :
    Pieced given fun σ => f σ ++ g σ := by
  obtain ⟨ps, hps, hf⟩ := hf
  obtain ⟨qs, hqs, hg⟩ := hg
  refine ⟨ps ++ qs, ?_, fun σ => ?_⟩
  · intro name hmem
    exact (List.mem_append.mp hmem).elim (hps name) (hqs name)
  · simp only [hf, hg, Piece.join, List.map_append, String.join_append]

/-- More leaves may be given. -/
theorem mono (hf : Pieced given f) (h : ∀ name, given name → more name) : Pieced more f := by
  obtain ⟨ps, hps, hf⟩ := hf
  exact ⟨ps, fun name hmem => h name (hps name hmem), hf⟩

variable {α : Type} {items : List α} {text : α → (Leaf → String) → String}

theorem join (h : ∀ a ∈ items, Pieced given (text a)) :
    Pieced given fun σ => String.join (items.map fun a => text a σ) := by
  induction items with
  | nil => exact fixed ""
  | cons a rest ih =>
    simp only [List.map_cons, String.join_cons]
    exact (h a List.mem_cons_self).append (ih fun b hb => h b (List.mem_cons_of_mem _ hb))

theorem stackAt (column : Nat) (h : ∀ a ∈ items, Pieced given (text a)) :
    Pieced given fun σ => Stencil.stackAt column (items.map fun a => text a σ) := by
  unfold Stencil.stackAt
  induction items with
  | nil => exact fixed ""
  | cons a rest ih =>
    have hrest := ih fun b hb => h b (List.mem_cons_of_mem _ hb)
    cases rest with
    | nil =>
      simp only [List.map_cons, List.map_nil, String.intercalate_singleton]
      exact h a List.mem_cons_self
    | cons b rest =>
      simp only [List.map_cons, String.intercalate_cons_cons] at hrest ⊢
      exact ((h a List.mem_cons_self).append (fixed _)).append hrest

end Pieced

end Stencil
