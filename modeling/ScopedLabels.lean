import ScopedLabels.Main
import ScopedLabels.Proofs.Independence
import ScopedLabels.Proofs.Soundness
import ScopedLabels.Proofs.Uniqueness
import ScopedLabels.Script.Printer
import ScopedLabels.Session.Step
import ScopedLabels.Proofs.Blocks
import ScopedLabels.Proofs.Brackets
import ScopedLabels.Proofs.Footprints
import ScopedLabels.Proofs.Histories
import ScopedLabels.Proofs.Tracing
import ScopedLabels.Proofs.Passages
import ScopedLabels.Proofs.Exactness
import ScopedLabels.Proofs.Grammar
import ScopedLabels.Proofs.Isolation
import ScopedLabels.Proofs.Composition
import ScopedLabels.Proofs.Resolution
import ScopedLabels.Proofs.Resumption
import ScopedLabels.Proofs.Verbosity
import ScopedLabels.Proofs.Strictness
import ScopedLabels.Proofs.Relocation
import ScopedLabels.Proofs.Overloads
import ScopedLabels.Proofs.Halting
import ScopedLabels.Proofs.Closing
import ScopedLabels.Proofs.Accounts
import ScopedLabels.Proofs.Identity
import ScopedLabels.Proofs.Layout
import ScopedLabels.Proofs.RoundTrip
import ScopedLabels.Proofs.Releases
import ScopedLabels.Proofs.Keyed
import ScopedLabels.Proofs.Tenancy
import ScopedLabels.Proofs.Staleness
import ScopedLabels.Proofs.Decoding
import ScopedLabels.Proofs.Collections
import ScopedLabels.Proofs.Dispatch
