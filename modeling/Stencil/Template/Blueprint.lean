import Stencil.Template.Register

/-!
# Blueprints

A **blueprint** describes a template together with its inner templates, before any of them
exists. To build it is to compile its text, and then, in the order of its inner blueprints, to
build each and register the result under its key. The first fault met on the way ends the
building.
-/

namespace Stencil

/-- A description of a template and of its inner templates. -/
structure Blueprint where
  /-- The text, once it is set. -/
  source : Option String := none
  config : Config := {}
  /-- Inner blueprints with the keys for them, in the order of their registration. -/
  inner : List (String × Blueprint) := []

namespace Blueprint

/-- The blueprint with one more inner blueprint. -/
def addInner (b : Blueprint) (key : String) (inner : Blueprint) : Blueprint :=
  { b with inner := b.inner ++ [(key, inner)] }

mutual

/-- The template that a blueprint describes. -/
def build (b : Blueprint) (supply : Supply) : Except Fault (Template × Supply) :=
  match b with
  | { source, config, inner } =>
    match source with
    | none => .error (.parse .noSource)
    | some text => do
      let (id, rest) := supply.draw
      let t ← Template.compile text config id
      buildInner inner t rest

/-- A template with the templates that inner blueprints describe registered on it. -/
def buildInner : List (String × Blueprint) → Template → Supply → Except Fault (Template × Supply)
  | [], t, supply => return (t, supply)
  | (key, b) :: rest, t, supply => do
    let (inner, supply) ← b.build supply
    let r ← t.register key inner supply
    buildInner rest r.template r.supply

end

end Blueprint

end Stencil
