import LiveDoc.Api.Reply
import LiveDoc.Backend.Demo
import LiveDoc.Backend.Log
import LiveDoc.Backoff
import LiveDoc.Proofs.Api.Abandonment
import LiveDoc.Proofs.Api.Body
import LiveDoc.Proofs.Backend.Answers
import LiveDoc.Proofs.Backend.Forwarding
import LiveDoc.Proofs.Backend.Framing
import LiveDoc.Proofs.Backend.Replies
import LiveDoc.Proofs.Backend.Settlement
import LiveDoc.Proofs.Backend.Verdict
import LiveDoc.Proofs.Backoff
import LiveDoc.Proofs.Client.Calls
import LiveDoc.Proofs.Client.Correlation
import LiveDoc.Proofs.Client.Frames
import LiveDoc.Proofs.Document.Chains
import LiveDoc.Proofs.Edit.Appends
import LiveDoc.Proofs.Edit.Batches
import LiveDoc.Proofs.Edit.Independence
import LiveDoc.Proofs.Edit.Replays
import LiveDoc.Proofs.Fanout.Ledger
import LiveDoc.Proofs.History
import LiveDoc.Proofs.Message.Serializers
import LiveDoc.Proofs.Server.Admission
import LiveDoc.Proofs.Server.Convergence
import LiveDoc.Proofs.Server.Handover
import LiveDoc.Proofs.Server.ReplyOrder
import LiveDoc.Proofs.Supervisor.Lifecycle
import LiveDoc.Proofs.Supervisor.Link
import LiveDoc.Proofs.Supervisor.Requests
import LiveDoc.Proofs.Supervisor.Respawn
import LiveDoc.Proofs.Supervisor.Restart
import LiveDoc.Proofs.Supervisor.Shutdown
import LiveDoc.Proofs.Supervisor.Stopped
import LiveDoc.Rehearsal.Bridge
import LiveDoc.Rehearsal.Channel
import LiveDoc.Rehearsal.Client
import LiveDoc.Rehearsal.Pump
import LiveDoc.Rehearsal.SupervisorScript
