import UnoQ.Client.Answers
import UnoQ.Client.Attempts
import UnoQ.Client.Awaits
import UnoQ.Client.Backoff
import UnoQ.Client.Bridge
import UnoQ.Client.Calls
import UnoQ.Client.Closing
import UnoQ.Client.Correlation
import UnoQ.Client.Counted
import UnoQ.Client.CutReplays
import UnoQ.Client.Deadlines
import UnoQ.Client.Dispatch
import UnoQ.Client.Frames
import UnoQ.Client.Inbound
import UnoQ.Client.Launch
import UnoQ.Client.Lifecycle
import UnoQ.Client.Link
import UnoQ.Client.OneLink
import UnoQ.Client.Outbound
import UnoQ.Client.Progress
import UnoQ.Client.Receiver
import UnoQ.Client.Record
import UnoQ.Client.Registering
import UnoQ.Client.Replays
import UnoQ.Client.Retry
import UnoQ.Client.Service
import UnoQ.Client.Shutdown
import UnoQ.Client.Subscriptions
import UnoQ.Client.TransportLink
import UnoQ.Client.Undropped
import UnoQ.Client.Unencodable
import UnoQ.Client.Views
import UnoQ.Cloud.Bearers
import UnoQ.Cloud.Books
import UnoQ.Cloud.CloudClientManager
import UnoQ.Cloud.CloudTrigger
import UnoQ.Cloud.Connections
import UnoQ.Cloud.Delivery
import UnoQ.Cloud.Demux
import UnoQ.Cloud.Handlers
import UnoQ.Cloud.Invariant
import UnoQ.Cloud.Quota
import UnoQ.Cloud.RefCount
import UnoQ.Cloud.References
import UnoQ.Cloud.RestApi
import UnoQ.Cloud.RestThrottle
import UnoQ.Cloud.SdkSubscriptions
import UnoQ.Cloud.SharedTokens
import UnoQ.Cloud.Throttle
import UnoQ.Cloud.ThrottledCalls
import UnoQ.Cloud.TokenCache
import UnoQ.Cloud.TokenCalls
import UnoQ.Cloud.TokenCoherence
import UnoQ.Cloud.TokenFetches
import UnoQ.Cloud.Waiting
import UnoQ.Codec.Doubles
import UnoQ.Codec.JsValue
import UnoQ.Codec.Malformed
import UnoQ.Codec.Msgpack
import UnoQ.Codec.RoundTrip
import UnoQ.Codec.Rpc
import UnoQ.Codec.StreamDecoder
import UnoQ.Lib.BigEndian
import UnoQ.Lib.Counting
import UnoQ.Lib.History
import UnoQ.Lib.InsertMap
import UnoQ.Lib.ItemLoop
import UnoQ.Lib.LengthPrefixed
import UnoQ.Lib.MessagePackItems
import UnoQ.Lib.MessagePackParse
import UnoQ.Lib.MessagePackWire
import UnoQ.Lib.Recorded
import UnoQ.Lib.Separated
import UnoQ.Lib.SequentialDecoding
import UnoQ.Lib.Spacing
import UnoQ.Lib.TokenBudget
import UnoQ.Lib.Transition
import UnoQ.Lib.Windows
import UnoQ.Manager.BridgeManager
import UnoQ.Manager.Endpoints
import UnoQ.Manager.FailedConnects
import UnoQ.Manager.Invariant
import UnoQ.Manager.Keys
import UnoQ.Manager.MethodRefs
import UnoQ.Manager.Ownership
import UnoQ.Manager.Release
import UnoQ.Manager.Sharing
import UnoQ.Nodes.Budget
import UnoQ.Nodes.CallNode
import UnoQ.Nodes.Charges
import UnoQ.Nodes.CloudNode
import UnoQ.Nodes.Deferred
import UnoQ.Nodes.Delivered
import UnoQ.Nodes.FanOut
import UnoQ.Nodes.Gates
import UnoQ.Nodes.Leases
import UnoQ.Nodes.MethodOwner
import UnoQ.Nodes.OwnRequests
import UnoQ.Nodes.OwnResults
import UnoQ.Nodes.Parameters
import UnoQ.Nodes.PendingRequests
import UnoQ.Nodes.RateLimiter
import UnoQ.Nodes.RetryHint
import UnoQ.Nodes.Silence
import UnoQ.Nodes.SlidingCap
import UnoQ.Nodes.Stranded
import UnoQ.Nodes.TestConnection
import UnoQ.Nodes.Trigger
import UnoQ.Ssh.Authorisation
import UnoQ.Ssh.CertEncoding
import UnoQ.Ssh.CertGrammar
import UnoQ.Ssh.CertLayout
import UnoQ.Ssh.CertParser
import UnoQ.Ssh.CertReads
import UnoQ.Ssh.Listener
import UnoQ.Ssh.NodeText
import UnoQ.Ssh.Possession
import UnoQ.Ssh.Routing
import UnoQ.Ssh.Settling
import UnoQ.Ssh.SshServer
import UnoQ.Ssh.Tunnels
import UnoQ.Ssh.Utf8
import UnoQ.Ssh.WaiterBook
import UnoQ.Ssh.Waiters
import UnoQ.Transport.Descriptor
import UnoQ.Transport.Resolver
import UnoQ.Transport.Routes
import UnoQ.Transport.SocketTransport
import UnoQ.Transport.SshTransport
import UnoQ.Transport.Streams
