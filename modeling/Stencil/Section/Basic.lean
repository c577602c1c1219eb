/-!
# Sections

A template text is a sequence of **sections**: literal text that is copied to the output, and
placeholders. A placeholder is *dynamic* while it stands for a scalar of the record, and *inner*
once its key is bound to a whole template. Both remember the column at which they open, because
the lines of an inner template are aligned with it.
-/

namespace Stencil

/-- One unit of a template, in document order. -/
inductive Section where
  /-- Text copied to the output as it stands. -/
  | static (text : String)
  /-- A placeholder for the scalar that the record holds under `key`. -/
  | dynamic (key : String) (column : Nat)
  /-- A placeholder for the template bound to `key`. -/
  | inner (key : String) (column : Nat)
deriving DecidableEq, Repr

namespace Section

/-- The key of a placeholder. -/
def key? : Section → Option String
  | static _ => none
  | dynamic key _ | inner key _ => some key

/-- The key of a placeholder that stands for a scalar. -/
def dynamicKey? : Section → Option String
  | dynamic key _ => some key
  | static _ | inner _ _ => none

/-- The column of a placeholder that stands for the template bound to `key`. -/
def innerColumn? (key : String) : Section → Option Nat
  | inner k column => if k = key then some column else none
  | static _ | dynamic _ _ => none

/-- Makes a dynamic placeholder whose key is bound an inner one, at the same column. -/
def bind (bound : String → Bool) : Section → Section
  | dynamic key column => if bound key then inner key column else dynamic key column
  | s => s

@[simp] theorem bind_static (bound : String → Bool) (text : String) :
    (static text).bind bound = static text := rfl

theorem bind_dynamic_of_bound {bound : String → Bool} {key : String} (h : bound key = true)
    (column : Nat) : (dynamic key column).bind bound = inner key column :=
  if_pos h

theorem bind_dynamic_of_free {bound : String → Bool} {key : String} (h : bound key = false)
    (column : Nat) : (dynamic key column).bind bound = dynamic key column :=
  if_neg (Bool.eq_false_iff.mp h)

@[simp] theorem bind_inner (bound : String → Bool) (key : String) (column : Nat) :
    (inner key column).bind bound = inner key column := rfl

@[simp] theorem key?_bind (bound : String → Bool) (s : Section) :
    (s.bind bound).key? = s.key? := by
  cases s with
  | static | inner => rfl
  | dynamic key column => simp only [bind]; split <;> rfl

/-- The distinct keys of the dynamic placeholders, in the order in which they first appear. -/
def declaredKeys (sections : List Section) : List String :=
  (sections.filterMap dynamicKey?).eraseDups

example : declaredKeys [.dynamic "b" 0, .static "x", .dynamic "a" 4, .dynamic "b" 8]
    = ["b", "a"] := by decide

end Section

end Stencil
