import Epx.Lib.Bytes
import Epx.Lib.Parse
import Epx.Protocol
import Epx.ProtocolGrammar
import Epx.Crypto
import Epx.Framing
import Epx.Handshake
import Epx.Transcript
import Epx.Lib.Transition
import Epx.HandshakeAgreement
import Epx.HandshakeTamper
import Epx.Lib.Numbered
import Epx.RecordLayer
import Epx.Session.Sender
import Epx.Session.Client
import Epx.Session.Host
import Epx.Session.Nonces
import Epx.Session.Channel
import Epx.Session.Rotation
import Epx.Session.Agreement
import Epx.Session.Receiver
import Epx.Session.Integrity
import Epx.ClientConns
import Epx.HostLoop
import Epx.PeerInput
import Epx.PayloadRoundTrip
import Epx.AuthorizationGate
import Epx.Lib.TornStream
import Epx.Session.HostWrites
import Epx.FirstUse
import Epx.TrustSoundness
import Epx.Topic
import Epx.Subscriptions
import Epx.TopicHistory
import Epx.HostContents
import Epx.TopicFeed
import Epx.ClientTables
import Epx.TopicDelivery
import Epx.Session.ClientWrites
import Epx.ClientCallIds
import Epx.HandshakeSuccess
import Epx.Correlation
import Epx.ClientCallbacks
import Epx.StreamReturn
import Epx.SubscriptionEnd
import Epx.Handles
import Epx.HandleOwnership
import Epx.Lib.Text
import Epx.Registry
import Epx.RegistryOwnership
import Epx.Keystore
import Epx.Shutdown
import Epx.Lib.Log
import Epx.PromptOnce
import Epx.IdentityFile
import Epx.Drain
import Epx.DrainWindow
import Epx.FrameStream
import Epx.TrustFiles
import Epx.ServiceDescription
import Epx.Lib.TokenBucket
import Epx.RateLimit
import Epx.Credentials
import Epx.Lifecycle
import Epx.StreamOutcome
import Epx.InertFrames
import Epx.ClientInertFrames
import Epx.Answers
import Epx.Desk
import Epx.RequestAnswers
import Epx.Handed
import Epx.HostEnd
import Epx.Line
import Epx.ClientEnd
import Epx.LineIds
import Epx.LineStreams
import Epx.LineReads
import Epx.HostStreams
import Epx.HandlerRuns
import Epx.Link
import Epx.StreamsIntact
import Epx.HandlerOrder
import Epx.LineAnswers
import Epx.Rpc
import Epx.FeedOrder
import Epx.Lib.Locks
import Epx.Locking
import Epx.TopicsIntact
import Epx.HostSteps
import Epx.Tapped
import Epx.EndToEnd
import Epx.Backpressure
import Epx.Lib.Slots
import Epx.StopSignals
import Epx.Session.RotationPolicy
import Epx.Discovery
