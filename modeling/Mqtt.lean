import Mqtt.Binary64
import Mqtt.Broker
import Mqtt.Client.Event
import Mqtt.Client.Loopback
import Mqtt.Client.Protocol
import Mqtt.Client.Runner
import Mqtt.CommandLine
import Mqtt.Connection
import Mqtt.Decoder
import Mqtt.Digits
import Mqtt.Directory
import Mqtt.FixedHeader
import Mqtt.Inflight
import Mqtt.Inflight.Stored
import Mqtt.Json
import Mqtt.Json.Document
import Mqtt.Json.Token
import Mqtt.KeepAlive
import Mqtt.Main
import Mqtt.Message
import Mqtt.Message.Stored
import Mqtt.Packet
import Mqtt.Packet.Body
import Mqtt.Packet.Encode
import Mqtt.PacketIds
import Mqtt.ProtocolError
import Mqtt.QoS
import Mqtt.Reader
import Mqtt.RemainingLength
import Mqtt.RetainTree
import Mqtt.RetainTree.Stored
import Mqtt.Server
import Mqtt.Server.Loopback
import Mqtt.Session
import Mqtt.Session.Stored
import Mqtt.SessionStore
import Mqtt.Settings
import Mqtt.Settings.Definitions
import Mqtt.Settings.Document
import Mqtt.Settings.Place
import Mqtt.Settings.Reading
import Mqtt.Settings.Toml
import Mqtt.Settings.Value
import Mqtt.Settings.Variables
import Mqtt.SocketAddress
import Mqtt.Stream
import Mqtt.SubscriptionTree
import Mqtt.SubscriptionTree.Stored
import Mqtt.Topic
import Mqtt.Trie
import Mqtt.Trie.Stored
import Mqtt.Proofs.Reading
import Mqtt.Proofs.Fields
import Mqtt.Proofs.Bodies
import Mqtt.Proofs.Lengths
import Mqtt.Proofs.Packets
import Mqtt.Proofs.StreamCuts
import Mqtt.Proofs.ConnectionCuts
import Mqtt.Proofs.Outcomes
import Mqtt.Proofs.Routing
import Mqtt.Proofs.Sessions
import Mqtt.Proofs.Handing
import Mqtt.Proofs.TransmissionOrder
import Mqtt.Proofs.Handling
import Mqtt.Proofs.Hub
import Mqtt.Proofs.Reception
import Mqtt.Proofs.Ownership
import Mqtt.Proofs.Levels
import Mqtt.Proofs.Lookup
import Mqtt.Proofs.Subscriptions
import Mqtt.Proofs.Nodes
import Mqtt.Proofs.Retained
import Mqtt.Proofs.Values
import Mqtt.Proofs.Records
import Mqtt.Proofs.StoredTrees
import Mqtt.Proofs.Edits
import Mqtt.Proofs.Snapshot
import Mqtt.Proofs.Nesting
import Mqtt.Proofs.TokenText
import Mqtt.Proofs.DocumentText
import Mqtt.Proofs.StoreDepth
import Mqtt.Proofs.SavedStore
import Mqtt.Proofs.Operations
import Mqtt.Proofs.Ledger
import Mqtt.Proofs.Accounting
import Mqtt.Proofs.Framing
import Mqtt.Proofs.Marks
import Mqtt.Proofs.Exchange
import Mqtt.Proofs.Conversation
import Mqtt.Proofs.Sending
import Mqtt.Proofs.Serving
import Mqtt.Proofs.Lines
import Mqtt.Proofs.Traffic
import Mqtt.Proofs.Listening
import Mqtt.Proofs.World
import Mqtt.Proofs.Soundness
import Mqtt.Proofs.Arrivals
import Mqtt.Proofs.ClientSide
import Mqtt.Proofs.BrokerSide
import Mqtt.Proofs.Delivery
import Mqtt.Proofs.Pieces
import Mqtt.Proofs.ExactlyOnce
import Mqtt.Proofs.Holding
import Mqtt.Proofs.Switchboard
import Mqtt.Proofs.Outgoing
import Mqtt.Proofs.Greeting
import Mqtt.Proofs.Isolation
import Mqtt.Proofs.LifeCycle
import Mqtt.Proofs.Remembered
import Mqtt.Proofs.Legible
import Mqtt.Proofs.Tracking
import Mqtt.Proofs.Identifiers
import Mqtt.Proofs.Copies
import Mqtt.Proofs.Resuming
import Mqtt.Proofs.Refusals
import Mqtt.Proofs.Admission
import Mqtt.Proofs.LastWill
import Mqtt.Proofs.Backlog
import Mqtt.Proofs.SizeLimit
import Mqtt.Proofs.VisitOrder
import Mqtt.Proofs.Replies
import Mqtt.Proofs.Subscribing
import Mqtt.Proofs.Silence
import Mqtt.Proofs.Timers
import Mqtt.Proofs.Buffers
import Mqtt.Proofs.Scripts
import Mqtt.Proofs.Ranges
import Mqtt.Proofs.Progress
import Mqtt.Proofs.Cuts
import Mqtt.Proofs.StoredText
import Mqtt.Proofs.Rounds
import Mqtt.Proofs.Filters
import Mqtt.Proofs.FailedCalls
import Mqtt.Proofs.Outstanding
import Mqtt.Proofs.LengthBytes
import Mqtt.Proofs.Naming
