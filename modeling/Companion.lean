import Companion.Runs.Transfers
import Companion.Runs.Payments
import Companion.Runs.Delivery
import Companion.Proxy
import Companion.Mirror.Sampling
import Companion.Mirror.TransferPass
import Companion.Runs.Binding
import Companion.Runs.Network
import Companion.Lib.Log
import Companion.Runs.Stale
import Companion.Mirror.Amounts
import Companion.Mirror.Observation
import Companion.Rln
import Companion.Mirror.Reaper
import Companion.Mirror.FirstSight
import Companion.Runs.Payload
import Companion.Runs.Owner
import Companion.Settings
import Companion.Runs.Parking
import Companion.Runs.Departure
import Companion.Mirror.Chain
import Companion.Lib.Alike
import Companion.Mirror.Twins
import Companion.Mirror.Replay
import Companion.Mirror.Resume
import Companion.Mirror.Lockstep
import Companion.Runs.Scopes
import Companion.Pages
import Companion.Runs.Retries
import Companion.Mirror.Merge
import Companion.Mirror.Silence
import Companion.Mirror.Carried
import Companion.Runs.Exclusion
import Companion.Runs.FullSync
import Companion.Runs.Pauses
import Companion.Lib.Ghost
import Companion.Runs.Drain
import Companion.Api
import Companion.Lib.Coded
import Companion.Api.Token
import Companion.Lib.Observe
import Companion.Runs.Finality
import Companion.Runs.Health
import Companion.Columns
import Companion.Columns.Encode
import Companion.Lib.Represent
import Companion.Runs.Columns
import Companion.Http
import Companion.Lib.Follow
import Companion.Lib.Refine
import Companion.Runs.Gate
import Companion.Runs.Relay
import Companion.Runs.Wake
import Companion.Runs.Observers
import Companion.Runs.Progress
