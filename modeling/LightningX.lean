import LightningX.Desk.Connections
import LightningX.Desk.Interleaving
import LightningX.Desk.Liquidations
import LightningX.Desk.OrderIds
import LightningX.Desk.RateLimit
import LightningX.Desk.Settlement
import LightningX.Desk.Values
import LightningX.Exchange.Failover
import LightningX.Exchange.Gaps
import LightningX.Exchange.OpenOrders
import LightningX.Exchange.Sequences
import LightningX.Exchange.Sessions
import LightningX.Matching.Engine.Depth
import LightningX.Matching.Engine.Failures
import LightningX.Matching.Engine.FillOrKill
import LightningX.Matching.Engine.Mirror
import LightningX.Matching.Engine.RoundTrip
import LightningX.Matching.Engine.SnapshotBytes
import LightningX.Matching.MarketData
import LightningX.Persist.AccountRuns
import LightningX.Persist.FundingMoney
import LightningX.Persist.FundingRuns
import LightningX.Persist.FundsRuns
import LightningX.Persist.RedisWriter
import LightningX.Persist.Replay
import LightningX.Persist.TradePairs
import LightningX.Risk.Bankruptcy
import LightningX.Risk.MarkPrice
import LightningX.Risk.Reserving
import LightningX.Risk.ZeroSum
