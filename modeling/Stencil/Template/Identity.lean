/-!
# Identities

Every template has an **identity**. A clone shares the identity of what it was cloned from; that
is how a template is recognised when it is about to be registered on itself. New identities come
from a `Supply`, which counts those it has given out, starting with one.

Identities are words of 64 bits, so a supply repeats itself after `2 ^ 64` of them.
-/

namespace Stencil

/-- What tells a template and its clones from all others. -/
structure Identity where
  number : UInt64
deriving DecidableEq, Repr

/-- A source of identities. -/
structure Supply where
  /-- How many identities were drawn. -/
  drawn : Nat := 0
deriving DecidableEq, Repr

/-- The next identity, and the supply without it. -/
def Supply.draw (s : Supply) : Identity × Supply :=
  (⟨UInt64.ofNat (s.drawn + 1)⟩, ⟨s.drawn + 1⟩)

@[simp] theorem Supply.draw_snd (s : Supply) : s.draw.2 = ⟨s.drawn + 1⟩ := rfl

end Stencil
