import Massbit.Analytics.DailyTransaction
import Massbit.Analytics.Instruction
import Massbit.Analytics.PostgresAdapter
import Massbit.Analytics.Processor
import Massbit.Analytics.RawTransaction
import Massbit.Analytics.Scanner
import Massbit.Analytics.StatBlock
import Massbit.Analytics.SystemInstruction
import Massbit.Analytics.Table
import Massbit.Analytics.TokenBalance
import Massbit.Cache.EntityCache
import Massbit.Cache.History
import Massbit.Cache.Lfu
import Massbit.Cache.LfuEvict
import Massbit.Cache.LfuWeight
import Massbit.Cache.Modifications
import Massbit.Cache.Staleness
import Massbit.Data.BigDecimal
import Massbit.Data.Bytes
import Massbit.Data.Decimal
import Massbit.Data.Entity
import Massbit.Ethereum.Adapter
import Massbit.Ethereum.Assembly
import Massbit.Ethereum.CallFilter
import Massbit.Ethereum.Chain
import Massbit.Ethereum.DataSource
import Massbit.Ethereum.Filter
import Massbit.Ethereum.LogStream
import Massbit.Ethereum.Reload
import Massbit.Ethereum.Scan
import Massbit.Ethereum.TriggerOrder
import Massbit.Ethereum.Types
import Massbit.Futures.Cancelable
import Massbit.Futures.Retry
import Massbit.GraphQL.Document
import Massbit.GraphQL.ImportGraph
import Massbit.GraphQL.Interfaces
import Massbit.GraphQL.Validation
import Massbit.Indexer.BlockState
import Massbit.Indexer.Created
import Massbit.Indexer.HostExports
import Massbit.Indexer.Instance
import Massbit.Indexer.ProcessBlock
import Massbit.Indexer.Rounds
import Massbit.Indexer.RunIndexer
import Massbit.Indexer.Watch
import Massbit.IndexerApi.CacheableStore
import Massbit.IndexerApi.Clamping
import Massbit.IndexerApi.Content
import Massbit.IndexerApi.Coverage
import Massbit.IndexerApi.EntityCache
import Massbit.IndexerApi.IndexerStore
import Massbit.IndexerApi.Interleaving
import Massbit.IndexerApi.StartMapping
import Massbit.IndexerApi.TimeTravel
import Massbit.Ipfs.JsonStream
import Massbit.Lib.Base58
import Massbit.Lib.Chunks
import Massbit.Lib.GroupBy
import Massbit.Lib.Growth
import Massbit.Lib.KeyedQueue
import Massbit.Lib.LittleEndian
import Massbit.Lib.MapLoop
import Massbit.Lib.Memory
import Massbit.Lib.Outcome
import Massbit.Lib.PollLoop
import Massbit.Lib.SlotQueue
import Massbit.Lib.StableSort
import Massbit.Lib.Tasks
import Massbit.Lib.Timeline
import Massbit.Lib.Transaction
import Massbit.Lib.Unfold
import Massbit.Lib.Utf16
import Massbit.Lib.VersionedTable
import Massbit.Manager.Config
import Massbit.Postgres.Concurrency
import Massbit.Postgres.CreateDeployment
import Massbit.Postgres.DeploymentStore
import Massbit.Postgres.Insert
import Massbit.Postgres.Layout
import Massbit.Postgres.Naming
import Massbit.Postgres.Query
import Massbit.Postgres.RoundTrip
import Massbit.Postgres.Schema
import Massbit.Postgres.Sites
import Massbit.Postgres.Value
import Massbit.Runtime.Alignment
import Massbit.Runtime.AscHeap
import Massbit.Runtime.Class
import Massbit.Runtime.HeapLaw
import Massbit.Runtime.Layouts
import Massbit.Runtime.RoundTrip
import Massbit.Runtime.ToFrom
import Massbit.Runtime.TokenRoundTrip
import Massbit.Runtime.TypedArrays
import Massbit.Runtime.U256
import Massbit.Runtime.WasmInstance
import Massbit.SolCli.Entities
import Massbit.SolCli.Instruction
import Massbit.SolCli.SchemaSize
import Massbit.Solana.BlockBuffer
import Massbit.Solana.Broadcast
import Massbit.Solana.ChainAdapter
import Massbit.Solana.ChainReader
import Massbit.Solana.GetBlock
import Massbit.Solana.HandlerProxy
import Massbit.Solana.History
import Massbit.Solana.Pipeline
import Massbit.Solana.SendQueue
import Massbit.Solana.Types
import Massbit.Stream.Firehose
import Massbit.Stream.Polling
