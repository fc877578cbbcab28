import AgentRuns.Table
import AgentRuns.Fencing
import AgentRuns.Answerable
import AgentRuns.Duplicates
import AgentRuns.Cancelling
import AgentRuns.Streams
import AgentRuns.Deliveries
import AgentRuns.ClaimSafety
import AgentRuns.ClaimAlone
import AgentRuns.Sse
import AgentRuns.Patches
import AgentRuns.Atomicity
import AgentRuns.Attempts
import AgentRuns.Spans
import AgentRuns.WorkedTime
import AgentRuns.DeadLetters
import AgentRuns.Resending
import AgentRuns.ClaimChoice
import AgentRuns.Subscribing
import AgentRuns.Redeliveries
import AgentRuns.Sender
import AgentRuns.Passes
import AgentRuns.Isolation
import AgentRuns.Workers
import AgentRuns.Principals
import AgentRuns.Repeats
import AgentRuns.Strangers
import AgentRuns.Forms
import AgentRuns.Signatures
import AgentRuns.Links
import AgentRuns.Downloads
import AgentRuns.Capping
import AgentRuns.KeyRegistry
import AgentRuns.Egress
import AgentRuns.RateHeaders
import AgentRuns.KeepsFiring
import AgentRuns.Identity
import AgentRuns.Overwork
import AgentRuns.Tenancy
import AgentRuns.FileLitter
import AgentRuns.StoredBlobs
import AgentRuns.Problems
import AgentRuns.Backlog
import AgentRuns.Caught
import AgentRuns.Turns
import AgentRuns.Rotation
import AgentRuns.Slots
import AgentRuns.Sharing
import AgentRuns.FairShare
import AgentRuns.Callers
import AgentRuns.Ticking
import AgentRuns.Overtaking
import AgentRuns.Dialogue
import AgentRuns.Middleware
import AgentRuns.Tenure
import AgentRuns.Delegation
