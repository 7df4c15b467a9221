import ConsolidatedBook.Machine
import ConsolidatedBook.BoundedFifo
import ConsolidatedBook.KeyedFold
import ConsolidatedBook.RecencyRing
import ConsolidatedBook.RedundantStream
import ConsolidatedBook.OnDemand
import ConsolidatedBook.Text
import ConsolidatedBook.Types
import ConsolidatedBook.MPSCQueue
import ConsolidatedBook.MPSCQueue.Moves
import ConsolidatedBook.MPSCQueue.Slots
import ConsolidatedBook.MPSCQueue.Exclusion
import ConsolidatedBook.MPSCQueue.History
import ConsolidatedBook.MPSCQueue.Calls
import ConsolidatedBook.MPSCQueue.Delivery
import ConsolidatedBook.MPSCQueue.Sequential
import ConsolidatedBook.CandleManager
import ConsolidatedBook.CandleManager.Aggregation
import ConsolidatedBook.CandleManager.Windows
import ConsolidatedBook.HashIDManager
import ConsolidatedBook.HashIDManager.Memory
import ConsolidatedBook.HashIDManager.Redundancy
import ConsolidatedBook.SpotParser
import ConsolidatedBook.SpotParser.WellFormed
import ConsolidatedBook.SpotParser.Guards
import ConsolidatedBook.CandleManager.Messages
import ConsolidatedBook.BaseProvider
import ConsolidatedBook.BaseProvider.StopRace
import ConsolidatedBook.BaseProvider.Joining
import ConsolidatedBook.BaseProvider.Reconnection
import ConsolidatedBook.MPSCQueue.Emptiness
import ConsolidatedBook.MPSCQueue.Fullness
import ConsolidatedBook.MPSCQueue.Solo
import ConsolidatedBook.MPSCQueue.Capacities
import ConsolidatedBook.LatestEvent
import ConsolidatedBook.KeyedMachine
import ConsolidatedBook.ConsolidateCandleManager
import ConsolidatedBook.ConsolidateCandleManager.Routing
import ConsolidatedBook.ConsolidateCandleManager.Shutdown
import ConsolidatedBook.StdString
import ConsolidatedBook.ServerConfig
import ConsolidatedBook.ServerConfig.Options
import ConsolidatedBook.ServerConfig.RoundTrip
import ConsolidatedBook.CandleManager.Snapshot
import ConsolidatedBook.HashIDManager.CallOrder
import ConsolidatedBook.HashIDManager.Clearing
import ConsolidatedBook.SpotParser.Returned
import ConsolidatedBook.SpotParser.Attribution
import ConsolidatedBook.SpotParser.Numerals
import ConsolidatedBook.Provider
import ConsolidatedBook.Provider.Publishing
import ConsolidatedBook.Provider.Instruments
import ConsolidatedBook.ReadNextJsonObject
import ConsolidatedBook.ReadNextJsonObject.Splitting
import ConsolidatedBook.ReadNextJsonObject.OneObject
import ConsolidatedBook.JsonText
import ConsolidatedBook.JsonText.Reading
import ConsolidatedBook.Provider.Subscription
import ConsolidatedBook.Machine.Simulation
import ConsolidatedBook.MPSCQueue.Words
import ConsolidatedBook.MPSCQueue.Wrapping
import ConsolidatedBook.MPSCQueue.Atomic
import ConsolidatedBook.MPSCQueue.Linearizable
import ConsolidatedBook.MPSCQueue.Progress
import ConsolidatedBook.WebSocketSession
import ConsolidatedBook.WebSocketSession.Moves
import ConsolidatedBook.WebSocketSession.Protocol
import ConsolidatedBook.WebSocketSession.Messages
import ConsolidatedBook.WebSocketSession.Stopping
import ConsolidatedBook.BaseProvider.Backoff
import ConsolidatedBook.ConsolidateCandleManager.Lifecycle
import ConsolidatedBook.CandleManager.Consolidation
import ConsolidatedBook.CandleManager.Identifiers
import ConsolidatedBook.KeyedFold.Merging
import ConsolidatedBook.HashIDManager.Bounded
import ConsolidatedBook.ServerConfig.Numbers
import ConsolidatedBook.Provider.WellFormed
import ConsolidatedBook.Provider.Agreement
import ConsolidatedBook.ReadNextJsonObject.Documents
import ConsolidatedBook.BaseProvider.System
import ConsolidatedBook.BaseProvider.SystemMoves
import ConsolidatedBook.BaseProvider.Composition
import ConsolidatedBook.BaseProvider.Refinement
import ConsolidatedBook.BaseProvider.Handlers
import ConsolidatedBook.BaseProvider.OneConnection
import ConsolidatedBook.BaseProvider.Deliveries
import ConsolidatedBook.BaseProvider.StopReturns
