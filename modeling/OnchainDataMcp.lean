import OnchainDataMcp.Lib.Runs
import OnchainDataMcp.Domain.Amount
import OnchainDataMcp.Domain.Chain
import OnchainDataMcp.Domain.Tx
import OnchainDataMcp.Ports.Provider
import OnchainDataMcp.Protocols.Evm.Rpc
import OnchainDataMcp.Protocols.Evm.Transfers
import OnchainDataMcp.Lib.Groups
import OnchainDataMcp.Protocols.Evm.Tx
import OnchainDataMcp.App.PaymentRequest
import OnchainDataMcp.App.Payments
import OnchainDataMcp.App.EvmPayments
import OnchainDataMcp.App.ForeignTokens
import OnchainDataMcp.Lib.Paging
import OnchainDataMcp.Protocols.Evm.History
import OnchainDataMcp.Lib.OrdMap
import OnchainDataMcp.Protocols.Solana.Balances
import OnchainDataMcp.Protocols.Solana.OwnerChanges
import OnchainDataMcp.Routing.Marks
import OnchainDataMcp.Routing.Router
import OnchainDataMcp.App.VerifyTransfer
import OnchainDataMcp.Routing.Runtime
import OnchainDataMcp.Routing.Probes
import OnchainDataMcp.Routing.BreakerHistory
import OnchainDataMcp.Lib.Pace
import OnchainDataMcp.Routing.Rate
import OnchainDataMcp.Protocols.Solana.Scan
import OnchainDataMcp.Protocols.Solana.History
import OnchainDataMcp.Store.Clients
import OnchainDataMcp.Store.Hosted
import OnchainDataMcp.Store.Counters
import OnchainDataMcp.Store.Revocation
import OnchainDataMcp.Store.Windows
import OnchainDataMcp.Store.HostedQuota
import OnchainDataMcp.Domain.Text
import OnchainDataMcp.Lib.WriteBehind
import OnchainDataMcp.Store.Restart
import OnchainDataMcp.Config.Settings
import OnchainDataMcp.Routing.Admission
import OnchainDataMcp.Config.Caps
import OnchainDataMcp.Config.Edit
import OnchainDataMcp.Lib.Wire
import OnchainDataMcp.Lib.Base64
import OnchainDataMcp.Protocols.Solana.Wire
import OnchainDataMcp.App.CompileMessage
import OnchainDataMcp.Lib.Forks
import OnchainDataMcp.Protocols.Evm.FinalizedChain
import OnchainDataMcp.Protocols.Solana.Tx
import OnchainDataMcp.App.TxStatus
import OnchainDataMcp.App.Transfers
import OnchainDataMcp.App.Deposits
import OnchainDataMcp.App.Polling
import OnchainDataMcp.Lib.Credits
import OnchainDataMcp.App.Crediting
import OnchainDataMcp.Domain.Caip
import OnchainDataMcp.Protocols.Stablecoins
import OnchainDataMcp.App.ResolveToken
import OnchainDataMcp.App.Calls
import OnchainDataMcp.App.Compliance
import OnchainDataMcp.Adapters.Relays
import OnchainDataMcp.App.Broadcast
import OnchainDataMcp.Config.Redacted
import OnchainDataMcp.Adapters.Http
import OnchainDataMcp.App.Balances
import OnchainDataMcp.Protocols.Simulate
import OnchainDataMcp.App.BuildTransfer
import OnchainDataMcp.Lib.Disk
import OnchainDataMcp.Lib.Interleave
import OnchainDataMcp.Transport.Password
import OnchainDataMcp.Lib.Query
import OnchainDataMcp.Lib.Radix
import OnchainDataMcp.Lib.Texts
import OnchainDataMcp.Domain.Identifiers
import OnchainDataMcp.Domain.Units
import OnchainDataMcp.Store.Reconcile
import OnchainDataMcp.Routing.Calendar
import OnchainDataMcp.Store.RetryAfter
import OnchainDataMcp.App.Ledger
import OnchainDataMcp.Protocols.Evm.Progress
import OnchainDataMcp.Routing.Refusals
import OnchainDataMcp.Lib.Waves
import OnchainDataMcp.Routing.Collect
import OnchainDataMcp.Routing.Confirm
import OnchainDataMcp.Routing.Outage
import OnchainDataMcp.Config.RpcUrl
import OnchainDataMcp.App.Payer
import OnchainDataMcp.App.Verdict
import OnchainDataMcp.App.Reference
import OnchainDataMcp.App.SolanaPrograms
import OnchainDataMcp.App.SolanaTransfer
import OnchainDataMcp.App.Swap
import OnchainDataMcp.App.SwapBuild
import OnchainDataMcp.App.Prices
import OnchainDataMcp.App.Peg
import OnchainDataMcp.App.PriceRange
import OnchainDataMcp.Protocols.MarketHours
import OnchainDataMcp.App.PriceAges
import OnchainDataMcp.Config.Loading
import OnchainDataMcp.Config.Locks
import OnchainDataMcp.App.Fiat
import OnchainDataMcp.Store.Quota
import OnchainDataMcp.Adapters.RateLimit
import OnchainDataMcp.Adapters.JsonRpc
import OnchainDataMcp.Adapters.Alchemy
import OnchainDataMcp.Adapters.AlchemyTransfers
import OnchainDataMcp.Protocols.Fees
import OnchainDataMcp.App.SignedTx
import OnchainDataMcp.Lib.Timetable
import OnchainDataMcp.Protocols.BalanceChanges
import OnchainDataMcp.Protocols.Issuer
import OnchainDataMcp.Protocols.MarketCalendar
import OnchainDataMcp.Lib.LittleEndian
import OnchainDataMcp.Lib.Machine
import OnchainDataMcp.Lib.Moves
import OnchainDataMcp.Routing.Bucket
import OnchainDataMcp.Store.ClientBuckets
import OnchainDataMcp.App.ResponseCache
import OnchainDataMcp.Adapters.EvmNode
import OnchainDataMcp.App.Resend
import OnchainDataMcp.Lib.OnceCell
import OnchainDataMcp.Server.ChainIdGuard
import OnchainDataMcp.App.SolanaPrograms
import OnchainDataMcp.Lib.Mutex
import OnchainDataMcp.Server.AdminConfig
import OnchainDataMcp.Lib.Csv
import OnchainDataMcp.Store.QuotaCsv
import OnchainDataMcp.Lib.FirstSeen
import OnchainDataMcp.Store.QuotaAlerts
import OnchainDataMcp.Lib.BigEndian
import OnchainDataMcp.Lib.TokenBook
import OnchainDataMcp.App.TokenCalls
import OnchainDataMcp.App.EvmTransfer
import OnchainDataMcp.App.SwapApprovals
import OnchainDataMcp.App.CardFunding
