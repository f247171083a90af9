import TokioMqtt.Lib.Parser
import TokioMqtt.Lib.Decoder
import TokioMqtt.Lib.Runs
import TokioMqtt.Lib.Handover
import TokioMqtt.Lib.Journal
import TokioMqtt.Lib.Buffer
import TokioMqtt.Proto.Lookup
import TokioMqtt.Proto.RoundTrip
import TokioMqtt.Proto.Framing
import TokioMqtt.Proto.Sections
import TokioMqtt.Proto.ReturnCodes
import TokioMqtt.Proto.Buffers
import TokioMqtt.Proto.Vle
import TokioMqtt.Proto.TopicFilter
import TokioMqtt.Proto.FilterGrammar
import TokioMqtt.Proto.FilterMatching
import TokioMqtt.Backend.Codec
import TokioMqtt.Backend.Unread
import TokioMqtt.Backend.Frames
import TokioMqtt.Backend.ExactlyOnce
import TokioMqtt.Backend.Records
import TokioMqtt.Backend.Acknowledgements
import TokioMqtt.Backend.CrashPoints
import TokioMqtt.Backend.OwnFlow
import TokioMqtt.Backend.PacketIds
import TokioMqtt.Backend.Tracking
import TokioMqtt.Backend.Answers
import TokioMqtt.Backend.SubAcks
import TokioMqtt.Backend.Machine
import TokioMqtt.Backend.Lifecycle
import TokioMqtt.Backend.Resumption
import TokioMqtt.Backend.Outgoing
import TokioMqtt.Backend.Closing
import TokioMqtt.Backend.Pings
import TokioMqtt.Backend.PingTimeouts
import TokioMqtt.Persistence.Reopen
import TokioMqtt.Persistence.Sessions
import TokioMqtt.Persistence.Enumeration
import TokioMqtt.Proto.Payloads
import TokioMqtt.Proto.HeaderCodecs
import TokioMqtt.Proto.Strings
import TokioMqtt.Client
import TokioMqtt.Persistence.Faults
import TokioMqtt.Persistence.Map
import TokioMqtt.Backend.Waiting
import TokioMqtt.Backend.KeepAlive
import TokioMqtt.Backend.Subscribers
import TokioMqtt.Backend.Streams
import TokioMqtt.Backend.Timers
import TokioMqtt.Backend.Clients
import TokioMqtt.Backend.SessionOrder
import TokioMqtt.Backend.Handshakes
import TokioMqtt.Backend.Wire
import TokioMqtt.Backend.Connects
import TokioMqtt.Backend.Futures
import TokioMqtt.Server.Stream
