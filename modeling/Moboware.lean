import Moboware.Library.EmittingLoop
import Moboware.Library.FirstMatch
import Moboware.Library.Machine
import Moboware.Library.OrderedMap
import Moboware.Library.MapEmbedding
import Moboware.Library.Throwing
import Moboware.Library.Json
import Moboware.Library.JsonPasting
import Moboware.Library.JsonLexemes
import Moboware.Library.JsonGrammar
import Moboware.Library.JsonTokens
import Moboware.Library.FlatMemory
import Moboware.Library.WrappedSlots
import Moboware.MatchingEngine.OrderData
import Moboware.MatchingEngine.OrderLevel
import Moboware.MatchingEngine.OrderBook
import Moboware.MatchingEngine.BestLevel
import Moboware.MatchingEngine.BookOperations
import Moboware.MatchingEngine.Engine
import Moboware.MatchingEngine.Sides
import Moboware.MatchingEngine.RequestProtocol
import Moboware.MatchingEngine.Representation
import Moboware.MatchingEngine.TradeRecipients
import Moboware.MatchingEngine.Uncrossed
import Moboware.MatchingEngine.EmptyLevels
import Moboware.MatchingEngine.TradeAccounting
import Moboware.MatchingEngine.PriceTimePriority
import Moboware.MatchingEngine.Ledger
import Moboware.MatchingEngine.Reconciliation
import Moboware.MatchingEngine.Symmetry
import Moboware.OrderRequests.JsonValue
import Moboware.OrderRequests.OrderDecoding
import Moboware.OrderRequests.OrderEventProcessor
import Moboware.OrderRequests.RequestFidelity
import Moboware.OrderRequests.RequestContainment
import Moboware.OrderRequests.MatchingEngineModule
import Moboware.OrderRequests.RequestAnswers
import Moboware.OrderRequests.OrderIds
import Moboware.OrderRequests.MessageEncoding
import Moboware.Common.RingBuffer
import Moboware.Common.RingBufferPointers
import Moboware.Common.RingBufferRuns
import Moboware.Common.RingBufferCompaction
import Moboware.Common.RingBufferElements
import Moboware.Common.LockLessRingBuffer
import Moboware.Common.LockLessFifo
import Moboware.Common.LockLessCounting
import Moboware.Common.LockLessThreads
import Moboware.Common.LockLessClaims
import Moboware.Common.LockLessInterleaving
import Moboware.Common.ProducerConsumer
import Moboware.Common.UnorderedFastMap
import Moboware.Common.FastMapAgreement
import Moboware.Common.FastMapPairs
import Moboware.Common.CircularBuffer
import Moboware.MatchingEngine.BookEdits
import Moboware.MatchingEngine.LevelLookup
import Moboware.Common.SessionFraming
import Moboware.Common.TcpServer
import Moboware.Common.TcpSessionTable
import Moboware.Common.TcpClient
import Moboware.Common.Logger
import Moboware.Common.LoggerDelivery
import Moboware.Common.LogWakeup
import Moboware.Common.LogLines
import Moboware.Library.Feed
import Moboware.Exchanges.Exchange
import Moboware.Exchanges.SaxEvents
import Moboware.Exchanges.FieldParsers
import Moboware.Applications.LoadConfig
import Moboware.Exchanges.BinanceMarketDataFeed
import Moboware.Exchanges.BinanceStreamParser
import Moboware.Exchanges.BitstampStreamParser
import Moboware.Exchanges.DepthSnapshots
import Moboware.Exchanges.TickDelivery
import Moboware.Exchanges.TradeDecoding
import Moboware.Exchanges.BitstampTradeDecoding
import Moboware.Exchanges.BookTickerDecoding
import Moboware.Exchanges.BitstampClassification
import Moboware.Exchanges.LevelReading
import Moboware.Exchanges.LevelDecoding
import Moboware.Socket.SocketServer
import Moboware.Socket.Reconnection
import Moboware.Socket.SessionCleanup
import Moboware.Library.Mutex
import Moboware.Library.Routing
import Moboware.Library.Pool
import Moboware.MatchingEngine.Market
import Moboware.MatchingEngine.MarketRefinement
import Moboware.MatchingEngine.LockedRequests
import Moboware.OrderRequests.InstrumentIsolation
import Moboware.Socket.SessionReading
import Moboware.MatchingEngine.Settlement
import Moboware.MatchingEngine.LevelQueues
import Moboware.MatchingEngine.StrictPriority
import Moboware.WebSocket.WebSocketServer
import Moboware.WebSocket.SessionDelivery
import Moboware.WebSocket.SessionTable
import Moboware.Channels.WebSocketChannel
import Moboware.Channels.ChannelRuns
import Moboware.Applications.RunningChannels
