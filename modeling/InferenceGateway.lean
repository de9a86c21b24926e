import InferenceGateway.Transition.Admission
import InferenceGateway.Sample
import InferenceGateway.Routes.Passthrough
import InferenceGateway.Routes.Malformed
import InferenceGateway.Upstream.Duplicates
import InferenceGateway.Routes.Steps
import InferenceGateway.Slots
import InferenceGateway.Budget
import InferenceGateway.Breakers
import InferenceGateway.Wedge
import InferenceGateway.AuditTrail
import InferenceGateway.Upstream.History
import InferenceGateway.Upstream.Ladder
import InferenceGateway.Upstream.Patrol
import InferenceGateway.Prober
import InferenceGateway.Upstream.Routing
import InferenceGateway.Ledger
import InferenceGateway.Rejections
import InferenceGateway.Disclosure
import InferenceGateway.Parity
import InferenceGateway.Auth.Keys
import InferenceGateway.Auth.Issued
import InferenceGateway.Cardinality
import InferenceGateway.Posix.Regex
import InferenceGateway.Scripts.PackForBox
import InferenceGateway.Scripts.Clearance
import InferenceGateway.Upstream.Stall
import InferenceGateway.Upstream.Exposition
import InferenceGateway.Routes.Chunking
import InferenceGateway.Routes.Forwarded
import InferenceGateway.Routes.Epilogue
import InferenceGateway.Upstream.RetryAfter
import InferenceGateway.Upstream.Rotation
import InferenceGateway.Upstream.RetryLoop
import InferenceGateway.Outage
import InferenceGateway.Auth.Grammar
import InferenceGateway.Upstream.RetryDelay
import InferenceGateway.Auth.Cost
import InferenceGateway.Python.Reread
import InferenceGateway.Auth.Persistence
import InferenceGateway.Auth.Granted
import InferenceGateway.Python.Words
import InferenceGateway.Routes.Estimate
import InferenceGateway.AuditFile
import InferenceGateway.Auth.KeyFile
import InferenceGateway.Scripts.DevKey
import InferenceGateway.Stub.Replies
import InferenceGateway.Recovery
import InferenceGateway.Auth.Jwt
import InferenceGateway.Detection
import InferenceGateway.Python.Blocks
import InferenceGateway.Scripts.B3Probe
import InferenceGateway.Python.Semaphore
import InferenceGateway.Stub.Engine
import InferenceGateway.Stub.Gauges
import InferenceGateway.Routes.Delivery
import InferenceGateway.Stub.BothWays
