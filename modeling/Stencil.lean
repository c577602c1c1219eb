import Stencil.Proofs.Origin
import Stencil.Proofs.Section.Pieces
import Stencil.Proofs.Template.Assembly
import Stencil.Proofs.Template.Complete
import Stencil.Proofs.Template.Opaque
import Stencil.Value.Batch
import Stencil.Value.Datum
import Stencil.Proofs.Template.Append
import Stencil.Proofs.Template.Visit
import Stencil.Proofs.Inlining
import Stencil.Proofs.Section.Cut
import Stencil.Proofs.Section.Location
import Stencil.Proofs.Template.Aligned
import Stencil.Proofs.Template.Columns
import Stencil.Proofs.Template.Faults
import Stencil.Proofs.Template.Building
import Stencil.Proofs.TopDown
import Stencil.Proofs.Entries.Sorted
import Stencil.Proofs.Value.Canonical
import Stencil.Proofs.Value.Serialization
import Stencil.Proofs.Template.Reserialized
import Stencil.Proofs.Text.Lines
import Stencil.Proofs.Value.Batch
import Stencil.Proofs.Template.Estimate
