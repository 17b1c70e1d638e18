import TMEdge.Adoption.Restart
import TMEdge.Analytics.Coverage
import TMEdge.Analytics.Restart
import TMEdge.Archive.Extracted
import TMEdge.Auth.Loadable
import TMEdge.Auth.RateLimit
import TMEdge.Auth.Redirect
import TMEdge.Auth.SignOut
import TMEdge.AutoRecord.Recorded
import TMEdge.Build.Final
import TMEdge.Commands.Live
import TMEdge.Commands.Verdicts
import TMEdge.Detect.Components
import TMEdge.Detect.Learned
import TMEdge.Email.Limit
import TMEdge.Email.Proven
import TMEdge.Exports.Restart
import TMEdge.Firmware.Images
import TMEdge.Flasher.Digest
import TMEdge.Flasher.Images
import TMEdge.Flasher.Provision
import TMEdge.Frames.Pairing
import TMEdge.Gateway.Routes
import TMEdge.Graph.Upstream
import TMEdge.Heat.Decode
import TMEdge.Heat.Model
import TMEdge.History.Losses
import TMEdge.Hpc.Bookkeeping
import TMEdge.Hpc.Lockout
import TMEdge.Hpc.TermSender
import TMEdge.Hpc.Terminals
import TMEdge.Ingest.Nodes
import TMEdge.Leadership.Exclusion
import TMEdge.NodeLink.Backlog
import TMEdge.NodeLink.Grants
import TMEdge.NodeLink.Rate
import TMEdge.NodeLink.Verified
import TMEdge.Occupancy.Allocate
import TMEdge.Occupancy.Assign
import TMEdge.Occupancy.Floors
import TMEdge.Occupancy.Hysteresis
import TMEdge.Occupancy.Merge
import TMEdge.Occupancy.Sides
import TMEdge.OpenConnect.Authenticate
import TMEdge.Params.Guarantees
import TMEdge.Params.Sweeps
import TMEdge.Recorder.Accounting
import TMEdge.Rollout.Load
import TMEdge.Rollout.Rollback
import TMEdge.Rollout.WriteAhead
import TMEdge.Sbatch.Script
import TMEdge.Sealed.Inbox
import TMEdge.Train.Quota
import TMEdge.Train.Refresh
import TMEdge.Train.Stored
import TMEdge.Workspace.Privacy
