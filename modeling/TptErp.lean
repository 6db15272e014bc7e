import TptErp.Lib.Run
import TptErp.Lib.Threads
import TptErp.Lib.AssocMap
import TptErp.Lib.LockOrder
import TptErp.Lib.SortDedup
import TptErp.Lib.GroupBy
import TptErp.Primitives
import TptErp.Ledger.EventStore
import TptErp.Ledger.EventStoreRuns
import TptErp.Ledger.PostgresStore
import TptErp.Ledger.DoubleEntry
import TptErp.Gl.Coa
import TptErp.Gl.Journal
import TptErp.Gl.Reporting
import TptErp.Gl.Books
import TptErp.Gl.Close
import TptErp.Gl.CloseRace
import TptErp.Gl.GuardedPosting
import TptErp.Gl.ShardLocks
import TptErp.Money
import TptErp.Allocation
import TptErp.Pos.Txn
import TptErp.Pos.Tender
import TptErp.Pos.Sync
import TptErp.Pos.SyncRuns
import TptErp.Pos.Returns
import TptErp.Pos.App
import TptErp.Pos.Refunds
import TptErp.Oms.Reservation
import TptErp.Oms.Calls
import TptErp.Oms.Oversell
import TptErp.Oms.Replay
import TptErp.Oms.Deadlines
import TptErp.Oms.Sweep
import TptErp.Oms.Saga
import TptErp.Oms.SagaErrors
import TptErp.Oms.Fulfilment
import TptErp.Oms.SagaFulfil
import TptErp.Wms.Inventory
import TptErp.Wms.Lots
import TptErp.Wms.InventoryErrors
import TptErp.Wms.Calls
import TptErp.Wms.Sections
import TptErp.Wms.StockLog
import TptErp.Wms.LotCover
import TptErp.Wms.LotReplay
import TptErp.Wms.Conservation
import TptErp.Wms.Serials
import TptErp.Ledger.Reload
import TptErp.Ledger.Outbox
import TptErp.Lib.ScaledInt
import TptErp.Server.App
import TptErp.Server.Isolation
import TptErp.Server.Sums
import TptErp.Pos.Calls
import TptErp.Pos.Traces
import TptErp.Pos.Prices
import TptErp.Oms.Backorders
import TptErp.Pos.Shares
import TptErp.Pos.Exchange
import TptErp.Tms.Hos
import TptErp.Wasm.Registry
import TptErp.Wasm.Billing
import TptErp.Entity.Repository
import TptErp.Entity.Router
import TptErp.Entity.Postgres
import TptErp.Wms.Fefo
import TptErp.Wms.PalletPick
import TptErp.Bus.InMemory
import TptErp.Flow.Orchestration
import TptErp.Flow.Unmixed
import TptErp.Pos.ReturnItems
import TptErp.Pos.Settlement
import TptErp.Oms.PartialReservation
import TptErp.Oms.Rma
import TptErp.Oms.Checkout
import TptErp.Gl.Closing
import TptErp.Gl.PeriodClose
import TptErp.Gl.Fx
import TptErp.Gl.Consolidation
import TptErp.Lib.Netting
import TptErp.Gl.Intercompany
import TptErp.IdText
import TptErp.Ledger.Anomaly
import TptErp.Ledger.Projection
import TptErp.Tenant.Tokens
import TptErp.Cache.Sessions
import TptErp.Entity.Paging
import TptErp.Cache.ReadModel
import TptErp.Cache.Sliding
import TptErp.Lib.AfterLast
import TptErp.Tms.Rest
import TptErp.Lib.ForkJoin
import TptErp.Mes.Mrp
import TptErp.Mes.Defects
import TptErp.Mes.Wip
import TptErp.Mes.Rework
import TptErp.Lib.Greedy
import TptErp.Tms.Route
import TptErp.Wms.Picking
import TptErp.Ingest
import TptErp.Gl.Tax
import TptErp.Lib.Await
import TptErp.Tenant.Db
import TptErp.Tenant.Subdomain
import TptErp.Lib.ClosedWalk
import TptErp.Tms.Geo
import TptErp.Lib.SqlLex
import TptErp.Tenant.Rls
import TptErp.Bus.Nats
import TptErp.Lib.Moments
import TptErp.Ledger.Outliers
import TptErp.Ledger.Delivery
import TptErp.Tms.Containment
import TptErp.Entity.Derive
import TptErp.Oms.Catalog
import TptErp.Wms.CycleCount
import TptErp.Wms.ReadModel
import TptErp.Lib.Replies
import TptErp.Wasm.Runtime
import TptErp.Percent
import TptErp.Oms.Promo
import TptErp.Lib.Tickets
import TptErp.Pos.Loyalty
import TptErp.Pos.Discounts
import TptErp.Cache.RedisSessions
import TptErp.Cache.SessionsAgree
import TptErp.Tenant.WithRls
import TptErp.Lib.TwoPhase
import TptErp.Gl.Serial
import TptErp.Gl.SerialBooks
