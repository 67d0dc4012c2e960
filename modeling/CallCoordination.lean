import CallCoordination.Switchboard
import CallCoordination.Script
import CallCoordination.Json.Codec
import CallCoordination.Settings.Load
import CallCoordination.Logging
import CallCoordination.World.Lemmas
import CallCoordination.Proofs.World.Registrations
import CallCoordination.Proofs.World.Trace
import CallCoordination.Proofs.Session.Acts
import CallCoordination.Proofs.Session.Run
import CallCoordination.Proofs.Announcement
import CallCoordination.Proofs.Session.Tidy
import CallCoordination.Proofs.Tracking
import CallCoordination.Proofs.Session.Attempt
import CallCoordination.Proofs.HoldLaw
import CallCoordination.Proofs.Swap
import CallCoordination.Proofs.World.Moves
import CallCoordination.Proofs.World.Holders
import CallCoordination.Proofs.World.Responses
import CallCoordination.Proofs.Session.Hearing
import CallCoordination.Proofs.Session.Ages
import CallCoordination.Proofs.Session.Epochs
import CallCoordination.Proofs.World.Reports
import CallCoordination.Proofs.Vigilance
import CallCoordination.Proofs.Rollback
import CallCoordination.Proofs.Staleness
import CallCoordination.Proofs.Session.Heeding
import CallCoordination.Proofs.Session.Deeds
import CallCoordination.Proofs.Duplicates
import CallCoordination.Proofs.Requests
import CallCoordination.Proofs.Session.Wire
import CallCoordination.Proofs.Noise
import CallCoordination.Session.Polling
import CallCoordination.Proofs.Session.Live
import CallCoordination.Proofs.Finality
import CallCoordination.Proofs.Driving
import CallCoordination.Proofs.Delivery
import CallCoordination.Proofs.Entry
import CallCoordination.Proofs.Isolation
import CallCoordination.Proofs.Session.Unrolled
import CallCoordination.Proofs.Session.Closing
import CallCoordination.Proofs.Session.Course
import CallCoordination.Proofs.Blame
import CallCoordination.Proofs.Answering
import CallCoordination.Proofs.Placement
import CallCoordination.Proofs.Allocation
import CallCoordination.Proofs.Draining
import CallCoordination.Proofs.Reconciliation
import CallCoordination.Proofs.Refusal
import CallCoordination.Proofs.Json.RoundTrip
import CallCoordination.Proofs.Defaults
