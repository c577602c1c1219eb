import Stencil.Section.Scan
import Stencil.Template.Identity

/-!
# Templates

A **template** is a text that was scanned, together with the templates bound to its placeholders,
its **inner** templates. It owns them: each is a copy with an identity of its own.

A template is kept in one **variant** for every column at which it is asked for. The variant for
a column holds the sections of the text indented to that column, with the placeholders of bound
keys made inner ones. There is always a variant for column 0.

`Template.compile` makes a template of a text. A template inside another one is named by the keys
on the way to it (`Template.find?`, `Template.replaceAt`).
-/

namespace Stencil

/-- How a template behaves. -/
structure Config where
  /-- Whether data is checked before a rendering, unless the caller decides. -/
  runChecks : Bool := true
  /-- What the size of a text is multiplied with to estimate the size of its rendering. -/
  sizeModifier : Float := 1.1
deriving DecidableEq

/-- The configuration for data that need not be checked. -/
def Config.unchecked : Config :=
  { runChecks := false }

/-- The estimated size of one rendering of a text: its UTF-8 size times the modifier, rounded half
away from zero and kept within 64 bits. -/
def Config.estimatedSize (config : Config) (text : String) : Nat :=
  (Float.ofNat text.utf8ByteSize * config.sizeModifier).round.toUInt64.toNat

/-- A template with its inner templates. -/
structure Template where
  id : Identity
  /-- The text as it was given. -/
  text : String
  config : Config
  /-- The distinct keys of the text, in the order in which they first appear. -/
  keys : List String
  /-- The estimated size of one rendering without inner templates. -/
  size : Nat
  /-- The sections for each column, by ascending column. -/
  variants : List (Nat × List Section)
  /-- The inner templates by their keys, in the order of their registration. -/
  inner : List (String × Template)

namespace Template

/-- The columns for which there is a variant. -/
def columns (t : Template) : List Nat :=
  t.variants.map Prod.fst

/-- The sections for a column, if there is a variant for it. -/
def sections? (t : Template) (column : Nat) : Option (List Section) :=
  t.variants.lookup column

/-- The inner template bound to a key. -/
def inner? (t : Template) (key : String) : Option Template :=
  t.inner.lookup key

/-- The keys to which inner templates are bound, in the order of their registration. -/
def innerKeys (t : Template) : List String :=
  t.inner.map Prod.fst

/-- A template from a text, with the sections for column 0. -/
def compile (text : String) (config : Config) (id : Identity) : Except Fault Template :=
  if text.isEmpty then .error (.parse .emptyText)
  else do
    let sections ← Section.parse text
    return {
      id
      text
      config
      keys := Section.declaredKeys sections
      size := config.estimatedSize text
      variants := [(0, sections)]
      inner := [] }

/-- The template that the keys of a path lead to. -/
def find? (t : Template) : List String → Option Template
  | [] => some t
  | key :: path => (t.inner? key).bind fun inner => inner.find? path

/-- Puts a template in the place that the keys of a path lead to. -/
def replaceAt (t : Template) (path : List String) (new : Template) : Template :=
  match path with
  | [] => new
  | key :: path =>
    { t with
      inner := t.inner.map fun entry =>
        if entry.1 = key then (key, entry.2.replaceAt path new) else entry }

@[simp] theorem find?_nil (t : Template) : t.find? [] = some t := rfl

@[simp] theorem find?_cons (t : Template) (key : String) (path : List String) :
    t.find? (key :: path) = (t.inner? key).bind fun inner => inner.find? path := rfl

@[simp] theorem replaceAt_nil (t new : Template) : t.replaceAt [] new = new := rfl

end Template

end Stencil
