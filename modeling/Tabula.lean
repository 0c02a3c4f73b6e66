import Tabula.Editor.Completion
import Tabula.Editor.Diagnostic
import Tabula.Editor.Hover
import Tabula.Main
import Tabula.Proofs.Session.Durable
import Tabula.Proofs.Session.Refinement
import Tabula.Proofs.Token.Cover
import Tabula.Proofs.Command.Acceptance
import Tabula.Proofs.Command.Value
import Tabula.Proofs.Session.Ground
import Tabula.Proofs.Session.Shared
import Tabula.Proofs.Condition.Term
import Tabula.Proofs.Condition.Clause
import Tabula.Proofs.Session.Where
import Tabula.Proofs.Table.RoundTrip
import Tabula.Proofs.Condition.Cut
import Tabula.Proofs.Condition.Examined
import Tabula.Proofs.Script.Semicolon
import Tabula.Proofs.Session.Enforced
import Tabula.Proofs.Session.Validated
import Tabula.Proofs.Session.Isolation
import Tabula.Proofs.Session.Recall
import Tabula.Proofs.Editor.Diagnostic
import Tabula.Proofs.Shell.Crash
import Tabula.Proofs.Session.Shown
import Tabula.Proofs.Shell.Continuation
import Tabula.Proofs.Session.Frame
import Tabula.Proofs.Session.Repeated
import Tabula.Proofs.Command.Viable
import Tabula.Proofs.Condition.Fold
import Tabula.Proofs.Session.EquiJoin
import Tabula.Proofs.Session.Projected
import Tabula.Proofs.Session.Altered
import Tabula.Proofs.Script.Partition
import Tabula.Proofs.Condition.Noted
import Tabula.Proofs.Session.Warned
import Tabula.Proofs.Condition.Spelled
import Tabula.Proofs.Session.Header
import Tabula.Proofs.Session.Addressed
import Tabula.Proofs.Shell.Streams
import Tabula.Proofs.Command.Spaced
import Tabula.Proofs.Command.Rejoined
import Tabula.Proofs.Editor.Placed
import Tabula.Proofs.Condition.Ordered
import Tabula.Proofs.Condition.Described
import Tabula.Proofs.Script.Masked
import Tabula.Proofs.Editor.Overlooked
import Tabula.Proofs.Command.Opening
import Tabula.Proofs.Table.Lockstep
import Tabula.Proofs.Editor.Hovered
