import Stencil.Template.Blueprint
import Stencil.Template.Estimate
import Stencil.Template.Render

/-!
# Sessions

A **session** holds templates in named slots and the supply of their identities. A template in it,
be it in a slot or inside another one, has an **address**: the slot and the keys on the way down.

`Session.run` carries out a `Command`. A command that is refused leaves the session as it was.
All templates that can be made come from a run of commands (`Session.ofCommands`).
-/

namespace Stencil

/-- Where a template is: in a slot, or below the template there. -/
structure Address where
  slot : String
  path : List String
deriving DecidableEq, Repr

/-- Named templates and the supply of their identities. -/
structure Session where
  slots : List (String × Template) := []
  supply : Supply := {}

/-- Something done to a session. -/
inductive Command where
  /-- Compile a text into a slot. -/
  | compile (slot : String) (text : String) (config : Config)
  /-- Build a blueprint into a slot. -/
  | build (slot : String) (blueprint : Blueprint)
  /-- Put a clone of a template, with the same identity, into a slot. -/
  | clone (slot : String) (source : Address)
  /-- Register the template at `inner` under a key of the template at `target`. -/
  | register (target : Address) (key : String) (inner : Address)

/-- Why a command is refused. -/
inductive Refusal where
  | noTemplate (address : Address)
  | fault (cause : Fault)
deriving DecidableEq, Repr

namespace Session

/-- The template at an address. -/
def find? (s : Session) (address : Address) : Option Template :=
  (s.slots.lookup address.slot).bind fun t => t.find? address.path

/-- The template at an address, which has to exist. -/
def find (s : Session) (address : Address) : Except Refusal Template :=
  match s.find? address with
  | some t => .ok t
  | none => .error (.noTemplate address)

/-- Puts a template into a slot. -/
def put (s : Session) (slot : String) (t : Template) : Session :=
  { s with slots := Entries.insert slot t s.slots }

/-- Puts a template in the place of the one at an address. -/
def replaceAt (s : Session) (address : Address) (t : Template) : Session :=
  match s.slots.lookup address.slot with
  | some root => s.put address.slot (root.replaceAt address.path t)
  | none => s

/-- Carries out a command. A template to be registered is looked up before the one that is to
receive it. -/
def run (s : Session) : Command → Except Refusal Session
  | .compile slot text config => do
    let (id, supply) := s.supply.draw
    let t ← (Template.compile text config id).mapError .fault
    return { s with supply }.put slot t
  | .build slot blueprint => do
    let (t, supply) ← (blueprint.build s.supply).mapError .fault
    return { s with supply }.put slot t
  | .clone slot source => do
    let t ← s.find source
    return s.put slot t
  | .register target key inner => do
    let i ← s.find inner
    let t ← s.find target
    let r ← (t.register key i s.supply).mapError .fault
    return { s with supply := r.supply }.replaceAt target r.template

/-- The session after a command, whether it is carried out or refused. -/
def after (s : Session) (c : Command) : Session :=
  match s.run c with
  | .ok next => next
  | .error _ => s

/-- The session after a run of commands, from an empty one. -/
def ofCommands (commands : List Command) : Session :=
  commands.foldl after {}

end Session

end Stencil
