import Fastwire.Lib.Run
import Fastwire.Lib.SlidingWindow
import Fastwire.Lib.Table
import Fastwire.Lib.Slots
import Fastwire.Lib.Sharded
import Fastwire.Lib.Entries
import Fastwire.Lib.Checked
import Fastwire.Lib.TokenBucket
import Fastwire.Lib.Ring
import Fastwire.Lib.Compaction
import Fastwire.Lib.Recency
import Fastwire.Wire.VarInt
import Fastwire.Wire.Packet
import Fastwire.Wire.Batch
import Fastwire.Wire.Values
import Fastwire.Wire.Indexed
import Fastwire.Crypto.ReplayWindow
import Fastwire.Crypto.Shift
import Fastwire.Crypto.Cipher
import Fastwire.Stats
import Fastwire.Channel.Basic
import Fastwire.Channel.Ack
import Fastwire.Channel.Ordered
import Fastwire.Channel.Window
import Fastwire.Channel.Arrivals
import Fastwire.Channel.Retransmission
import Fastwire.Fragment.Split
import Fastwire.Fragment.Reassembly
import Fastwire.Fragment.Message
import Fastwire.Fragment.Store
import Fastwire.Fragment.Arrivals
import Fastwire.Fragment.Indexed
import Fastwire.Compress
import Fastwire.Connection.Basic
import Fastwire.Connection.Receive
import Fastwire.Connection.ReceiveSpec
import Fastwire.Connection.AckSpec
import Fastwire.Connection.Send
import Fastwire.Connection.Packing
import Fastwire.Connection.Tick
import Fastwire.Connection.Pipeline
import Fastwire.Connection.Identity
import Fastwire.Connection.Lifecycle
import Fastwire.Connection.Packets
import Fastwire.Connection.Congestion
import Fastwire.Connection.BatchOrder
import Fastwire.Connection.AckFlush
import Fastwire.Loss.Window
import Fastwire.Loss.Calls
import Fastwire.Loss.Acknowledged
import Fastwire.Loss.Concurrent
import Fastwire.Handshake.Packets
import Fastwire.Handshake.Exchange
import Fastwire.Handshake.Agreement
import Fastwire.Handshake.Compression
import Fastwire.Handshake.Indexed
import Fastwire.Connection.Decoding
import Fastwire.Endpoint.Basic
import Fastwire.Endpoint.Invariant
import Fastwire.Endpoint.Sequenced
import Fastwire.Endpoint.Acceptance
import Fastwire.Endpoint.Slots
import Fastwire.Endpoint.Drain
import Fastwire.Endpoint.Fragments
import Fastwire.Endpoint.SendSide
import Fastwire.Endpoint.Wrap
import Fastwire.Endpoint.Calls
import Fastwire.Endpoint.Numbers
import Fastwire.Endpoint.Places
import Fastwire.Endpoint.Datagrams
import Fastwire.Pair.Basic
import Fastwire.Pair.AckSound
import Fastwire.Pair.Coverage
import Fastwire.Pair.Pending
import Fastwire.Endpoint.Order
import Fastwire.Traffic.Basic
import Fastwire.Traffic.Sender
import Fastwire.Traffic.Receiver
import Fastwire.Traffic.Turns
import Fastwire.Traffic.Ordered
import Fastwire.Traffic.Sequenced
import Fastwire.Traffic.Newest
import Fastwire.Server.Basic
import Fastwire.Server.Changes
import Fastwire.Server.Tables
import Fastwire.Server.Shards
import Fastwire.Server.Runs
import Fastwire.Server.Validation
import Fastwire.Server.Forged
import Fastwire.Server.Migration
import Fastwire.Server.Capacity
import Fastwire.Server.Limiter
import Fastwire.Server.Admission
import Fastwire.Server.Recency
import Fastwire.Interleaving.Work
import Fastwire.Interleaving.Server
import Fastwire.Interleaving.Client
import Fastwire.Interleaving.Callbacks
import Fastwire.Interleaving.Buffers
import Fastwire.Interleaving.Connect
import Fastwire.Interleaving.Downgrade
import Fastwire.Interleaving.Decrypt
import Fastwire.Interleaving.SendQueue
import Fastwire.Session.Elementary
import Fastwire.Session.Basic
import Fastwire.Session.Nonces
import Fastwire.Session.Deadlines
import Fastwire.Session.Closing
import Fastwire.Session.Owners
