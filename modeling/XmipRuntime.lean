import XmipRuntime.Arrival.Context
import XmipRuntime.Arrival.Gates
import XmipRuntime.Cluster.Acyclic
import XmipRuntime.Cluster.Births
import XmipRuntime.Cluster.Dismissed
import XmipRuntime.Cluster.InLine
import XmipRuntime.Cluster.Line
import XmipRuntime.Cluster.Moored
import XmipRuntime.Cluster.Ordered
import XmipRuntime.Cluster.Path
import XmipRuntime.Cluster.Runs
import XmipRuntime.Cluster.Threads
import XmipRuntime.Cluster.Writes
import XmipRuntime.Departure.Located
import XmipRuntime.Departure.Passes
import XmipRuntime.Departure.Standing
import XmipRuntime.Departure.Tries
import XmipRuntime.Event.Crossing
import XmipRuntime.Ledger.AuditChain
import XmipRuntime.Ledger.Carrying
import XmipRuntime.Ledger.Publication
import XmipRuntime.Ledger.Split
import XmipRuntime.Ledger.Storage
import XmipRuntime.Ledger.WriteStream
import XmipRuntime.Library.Answers
import XmipRuntime.Library.Framed
import XmipRuntime.Library.Grouped
import XmipRuntime.Library.Halts
import XmipRuntime.Library.Handing
import XmipRuntime.Library.Items
import XmipRuntime.Library.Journaled
import XmipRuntime.Library.Keyed
import XmipRuntime.Library.Later
import XmipRuntime.Library.Merged
import XmipRuntime.Library.Numbered
import XmipRuntime.Library.Pick
import XmipRuntime.Library.Pieces
import XmipRuntime.Library.Quoted
import XmipRuntime.Library.Run
import XmipRuntime.Library.Separated
import XmipRuntime.Library.Shortened
import XmipRuntime.Library.Stamped
import XmipRuntime.Library.Table
import XmipRuntime.Library.Traced
import XmipRuntime.Library.Versions
import XmipRuntime.Pickup.Carried
import XmipRuntime.Pickup.Cases
import XmipRuntime.Pickup.Exact
import XmipRuntime.Pickup.Overtaking
import XmipRuntime.Pickup.Paused
import XmipRuntime.Pickup.PickedUp
import XmipRuntime.Pickup.Runs
import XmipRuntime.Pickup.State
import XmipRuntime.Pickup.Stranded
import XmipRuntime.Plane.Acting
import XmipRuntime.Plane.Asking
import XmipRuntime.Plane.Audited
import XmipRuntime.Plane.Board
import XmipRuntime.Plane.Bound
import XmipRuntime.Plane.Callers
import XmipRuntime.Plane.Calls
import XmipRuntime.Plane.Deadline
import XmipRuntime.Plane.Endpoint
import XmipRuntime.Plane.Following
import XmipRuntime.Plane.Fresh
import XmipRuntime.Plane.Held
import XmipRuntime.Plane.Nonces
import XmipRuntime.Plane.Recovered
import XmipRuntime.Plane.Relayed
import XmipRuntime.Plane.Relaying
import XmipRuntime.Plane.Told
import XmipRuntime.Plane.Vouched
import XmipRuntime.Plane.Workers
import XmipRuntime.Pool.Threads
import XmipRuntime.Receiving.Answered
import XmipRuntime.Receiving.Conserved
import XmipRuntime.Receiving.Drained
import XmipRuntime.Receiving.Nudged
import XmipRuntime.Receiving.Places
import XmipRuntime.Receiving.State
import XmipRuntime.Receiving.Watch
import XmipRuntime.Registration.Definition
import XmipRuntime.Registration.Launchd
import XmipRuntime.Registration.ReadBack
import XmipRuntime.Registration.Settings
import XmipRuntime.Registration.Systemd
import XmipRuntime.Registration.Unit
import XmipRuntime.Registration.Windows
import XmipRuntime.Running.CertificateStanding
import XmipRuntime.Running.Operated
import XmipRuntime.Running.Stages
import XmipRuntime.Secure.Accepting
import XmipRuntime.SendStep.Admission
import XmipRuntime.SendStep.Ahead
import XmipRuntime.SendStep.Claims
import XmipRuntime.SendStep.Failed
import XmipRuntime.SendStep.Minded
import XmipRuntime.SendStep.Renewed
import XmipRuntime.SendStep.Starved
import XmipRuntime.SendStep.State
import XmipRuntime.SendStep.Sure
import XmipRuntime.SendStep.Woken
import XmipRuntime.Sequence.Accepted
import XmipRuntime.Sequence.Delivered
import XmipRuntime.Sequence.EndToEnd
import XmipRuntime.Sequence.Late
import XmipRuntime.Sequence.Names
import XmipRuntime.Sequence.Opened
import XmipRuntime.Sequence.Points
import XmipRuntime.Start.Capabilities
import XmipRuntime.Start.Checked
import XmipRuntime.Start.Hosts
import XmipRuntime.Start.Libraries
import XmipRuntime.Start.Signed
import XmipRuntime.Start.Started
import XmipRuntime.Start.Tree
import XmipRuntime.StreamShare.Behind
import XmipRuntime.StreamShare.Faithful
import XmipRuntime.StreamShare.Kept
import XmipRuntime.StreamShare.Moved
import XmipRuntime.StreamShare.Reads
import XmipRuntime.StreamShare.Settles
import XmipRuntime.WorkStep.Advancing
import XmipRuntime.WorkStep.Dispatch
import XmipRuntime.WorkStep.Ending
import XmipRuntime.WorkStep.Pages
import XmipRuntime.WorkStep.Runs
import XmipRuntime.WorkStep.Timers
import XmipRuntime.WorkStep.Turn
import XmipRuntime.WorkStep.Updates
import XmipRuntime.WorkStep.Waiting
