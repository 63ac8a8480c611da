import NewsServer.Lib.Memory
import NewsServer.Lib.Framing
import NewsServer.Lib.Runs
import NewsServer.Lib.Sessions
import NewsServer.Lib.Registers
import NewsServer.Lib.Lines
import NewsServer.Lib.Loops
import NewsServer.Lib.Broker
import NewsServer.Lib.Handles
import NewsServer.Basic
import NewsServer.BufferedTcpSocket
import NewsServer.Copies
import NewsServer.MultiSocket
import NewsServer.Subscriber
import NewsServer.TcpApp
import NewsServer.Client
import NewsServer.Server
import NewsServer.SubscriberLoop
import NewsServer.Console
import NewsServer.Proofs.Decoder
import NewsServer.Proofs.RoundTrip
import NewsServer.Proofs.Chunks
import NewsServer.Proofs.ReadLoop
import NewsServer.Proofs.TopicAgreement
import NewsServer.Proofs.NewsCodec
import NewsServer.Proofs.SelectPass
import NewsServer.Proofs.Grammar
import NewsServer.Proofs.EventQueue
import NewsServer.Proofs.Handlers
import NewsServer.Proofs.Steps
import NewsServer.Proofs.Connections
import NewsServer.Proofs.Identity
import NewsServer.Proofs.Release
import NewsServer.Proofs.StoreForward
import NewsServer.Proofs.FanOut
import NewsServer.Proofs.CommandFields
import NewsServer.Proofs.Subscriptions
import NewsServer.Proofs.Mailboxes
import NewsServer.Proofs.Operator
import NewsServer.Proofs.FrameBounds
import NewsServer.Proofs.EventLoop
import NewsServer.Proofs.WatchSet
import NewsServer.Proofs.Streams
import NewsServer.Proofs.ServerLoop
import NewsServer.Proofs.Drain
import NewsServer.Proofs.Descriptors
import NewsServer.Proofs.ClientLoop
import NewsServer.Proofs.ReturnedSelect
import NewsServer.Proofs.Receive
import NewsServer.Proofs.Isolation
import NewsServer.Proofs.Stops
import NewsServer.Proofs.Stranded
import NewsServer.Proofs.Hangup
import NewsServer.Proofs.ConsoleLines
import NewsServer.Proofs.Dialogue
import NewsServer.Proofs.ClientDrain
import NewsServer.Proofs.NewsLines
import NewsServer.Proofs.Endings
import NewsServer.Proofs.NewsHistory
import NewsServer.Proofs.Answers
import NewsServer.Proofs.Presence
import NewsServer.Proofs.Network
import NewsServer.Proofs.Agreement
import NewsServer.Proofs.Uplink
import NewsServer.Proofs.Downlink
import NewsServer.Proofs.Deliveries
