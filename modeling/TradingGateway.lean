import TradingGateway.Lib.Runs
import TradingGateway.Lib.Cyclic
import TradingGateway.Lib.BoundedFifo
import TradingGateway.Spsc.RingBuffer
import TradingGateway.Spsc.Interleaving
import TradingGateway.Spsc.Fifo
import TradingGateway.Spsc.Ladder
import TradingGateway.Spsc.RingBufferV4
import TradingGateway.Spsc.FifoV4
import TradingGateway.Lib.Bytes
import TradingGateway.OrderEntry.Codec
import TradingGateway.OrderEntry.Wire
import TradingGateway.Lib.StreamDecoder
import TradingGateway.OrderEntry.Request
import TradingGateway.OrderEntry.FrameParser
import TradingGateway.OrderEntry.Stream
import TradingGateway.OrderEntry.Reply
import TradingGateway.Lib.UnorderedMap
import TradingGateway.OrderEntry.Session
import TradingGateway.OrderEntry.OrderHistory
import TradingGateway.Gateway.EngineMessages
import TradingGateway.Gateway.Server
import TradingGateway.Gateway.Reference
import TradingGateway.Gateway.Routing
import TradingGateway.Gateway.Transitions
import TradingGateway.Gateway.Flow
import TradingGateway.Gateway.Responses
import TradingGateway.Gateway.Streams
import TradingGateway.Gateway.Exhaustion
import TradingGateway.Gateway.Handover
import TradingGateway.Gateway.CommandStreams
import TradingGateway.Gateway.Closing
import TradingGateway.Gateway.Correlation
import TradingGateway.Gateway.SessionAgreement
import TradingGateway.OrderEntry.RoundTrip
import TradingGateway.Gateway.SentFrames
import TradingGateway.Gateway.Sides
import TradingGateway.OrderEntry.Handles
import TradingGateway.OrderEntry.SessionResponses
import TradingGateway.OrderEntry.Replays
import TradingGateway.Spsc.Answers
import TradingGateway.OrderEntry.Sticky
import TradingGateway.OrderEntry.Bounds
import TradingGateway.Lib.QueueMachine
import TradingGateway.Lib.InstantQueue
import TradingGateway.Spsc.Machines
import TradingGateway.Spsc.Pictures
import TradingGateway.Spsc.Uncached
import TradingGateway.Spsc.Locked
import TradingGateway.Spsc.LadderInterleaved
import TradingGateway.Spsc.Benchmark
import TradingGateway.Lib.Duplex
import TradingGateway.Gateway.Threads
import TradingGateway.Gateway.Window
import TradingGateway.Gateway.Turns
import TradingGateway.Gateway.Shutdown
import TradingGateway.Bench.Client
import TradingGateway.Bench.Orders
import TradingGateway.Bench.Orderly
import TradingGateway.Bench.Served
import TradingGateway.Bench.Finish
