import TicketFlow.Arena.Collect
import TicketFlow.Arena.Encode
import TicketFlow.Arena.Placeholders
import TicketFlow.Cbor
import TicketFlow.Config
import TicketFlow.Context
import TicketFlow.Host
import TicketFlow.Invocation
import TicketFlow.Query
import TicketFlow.Report
import TicketFlow.Proofs.Evaluation.Delay
import TicketFlow.Proofs.Evaluation.Store
import TicketFlow.Proofs.Reduction.Action
import TicketFlow.Proofs.Reduction.Admission
import TicketFlow.Proofs.Reduction.Confinement
import TicketFlow.Proofs.Reduction.Cycles
import TicketFlow.Proofs.Reduction.Overflow
import TicketFlow.Proofs.Reduction.Scoping
import TicketFlow.Proofs.Lockstep.Currying
import TicketFlow.Proofs.Reduction.Staleness
import TicketFlow.Proofs.Timing.Acceptance
import TicketFlow.Proofs.Schedule.History
import TicketFlow.Proofs.Schedule.Clear
import TicketFlow.Proofs.Schedule.Execution
import TicketFlow.Proofs.Session.Independence
import TicketFlow.Proofs.Session.Stall
import TicketFlow.Proofs.Hub.Retirement
import TicketFlow.Proofs.Schedule.Batches
import TicketFlow.Proofs.Schedule.Mailboxes
import TicketFlow.Proofs.Encoding.Identity
import TicketFlow.Proofs.Arena.Ancestry
import TicketFlow.Proofs.Arena.Counting
import TicketFlow.Proofs.Encoding.Reading
import TicketFlow.Proofs.Encoding.Lossless
import TicketFlow.Proofs.Encoding.DigestText
import TicketFlow.Proofs.Encoding.ReportLine
import TicketFlow.Proofs.Stability.Repetition
