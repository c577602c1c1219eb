import Stencil.Template.Basic
import Stencil.Template.Columns
import Stencil.Text.Indent

/-!
# Registration

To **register** a template under a key is to bind a copy of it to the placeholders with that key.
Three things are refused, in this order: a key of blanks, the receiving template itself or a clone
of it, and a key that is bound.

The copy and every template below it get identities of their own (`Template.relabel`), so the
template may be registered again, even below its copy. Then the variants of the receiver and of
everything below it are made anew from the texts (`Template.rebuild`). The receiver keeps its
columns. An inner template gets the columns at which it stands in any variant of the template
around it, and column 0 (`Template.innerColumns`).

A refused registration has no effect: the result is a new template or a fault.
-/

namespace Stencil.Template

mutual

/-- The template with a new identity for it and then for each template below it. -/
def relabel (t : Template) (supply : Supply) : Template × Supply :=
  match t with
  | { inner, .. } =>
    let (id, supply) := supply.draw
    let (inner, supply) := relabelInner inner supply
    ({ t with id, inner }, supply)

/-- Inner templates with new identities, in their order. -/
def relabelInner : List (String × Template) → Supply → List (String × Template) × Supply
  | [], supply => ([], supply)
  | (key, t) :: rest, supply =>
    let (t, supply) := t.relabel supply
    let (rest, supply) := relabelInner rest supply
    ((key, t) :: rest, supply)

end

/-- The variants of a text for some columns, given which keys are bound. -/
def variantsOf (text : String) (bound : String → Bool) (columns : List Nat) :
    Except Fault (List (Nat × List Section)) :=
  columns.mapM fun column => do
    let sections ← Section.parse (Text.indent column text)
    return (column, sections.map (Section.bind bound))

/-- The columns for the inner template under a key: 0, and every column at which one of the
variants asks for it. -/
def innerColumns (variants : List (Nat × List Section)) (key : String) : List Nat :=
  Columns.ofList (0 :: (variants.flatMap Prod.snd).filterMap (Section.innerColumn? key))

mutual

/-- The template with its variants for the given columns made anew, and with those of every
template below it. -/
def rebuild (t : Template) (columns : List Nat) : Except Fault Template :=
  match t with
  | { text, inner, .. } => do
    let variants ← variantsOf text (fun key => (inner.lookup key).isSome) columns
    let inner ← rebuildInner variants inner
    return { t with variants, inner }

/-- Inner templates with their variants made anew for the columns that the variants of the template
around them ask for. -/
def rebuildInner (variants : List (Nat × List Section)) :
    List (String × Template) → Except Fault (List (String × Template))
  | [] => return []
  | (key, t) :: rest => do
    let t ← t.rebuild (innerColumns variants key)
    let rest ← rebuildInner variants rest
    return (key, t) :: rest

end

/-- What a registration leaves behind. -/
structure Registration where
  /-- The receiving template. -/
  template : Template
  /-- The copy that is bound to the key. -/
  stored : Template
  /-- The supply without the identities of the copy. -/
  supply : Supply

/-- Binds a copy of `inner` to the placeholders `key` of a template. -/
def register (t : Template) (key : String) (inner : Template) (supply : Supply) :
    Except Fault Registration :=
  if (Text.trim key).isEmpty then .error (.binding .blankKey)
  else if inner.id = t.id then .error (.binding .itself)
  else if (t.inner? key).isSome then .error (.binding (.takenKey key))
  else do
    let (copy, supply) := inner.relabel supply
    let template ← { t with inner := t.inner ++ [(key, copy)] }.rebuild t.columns
    match template.inner? key with
    | none => .error (.binding (.vanished key))
    | some stored => return { template, stored, supply }

end Stencil.Template
