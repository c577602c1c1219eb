import Stencil.Template.Basic
import Stencil.Value.Basic

/-!
# Estimating the size of a rendering

The estimate counts the size of a template once for each record, and at least once, and adds the
estimate of every inner template for the records that each record has under its key.
-/

namespace Stencil.Template

mutual

/-- The estimated size of the rendering for a sequence of records. -/
def estimate (t : Template) (records : List Value) : Nat :=
  match t with
  | { size, inner, .. } => max 1 records.length * size + estimateInner inner records

/-- The estimated size of what inner templates add for a sequence of records. -/
def estimateInner : List (String × Template) → List Value → Nat
  | [], _ => 0
  | (key, t) :: rest, records =>
    records.foldr (fun record total => t.estimate (record.recordsAt key) + total)
      (estimateInner rest records)

end

/-- The estimated size of the rendering of data. -/
def estimateData (t : Template) (data : Value) : Nat :=
  t.estimate data.records

end Stencil.Template
