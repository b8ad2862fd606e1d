import FixExchange.Admin.SessionPool
import FixExchange.Ui.Startup
import FixExchange.Engine.Conservation
import FixExchange.Engine.MatchBound
import FixExchange.Engine.Symbols
import FixExchange.Persistence.Batches
import FixExchange.System.Admission
import FixExchange.System.BookLookup
import FixExchange.System.ClOrdIds
import FixExchange.System.Crash
import FixExchange.System.ExecIds
import FixExchange.System.RiskRestart
import FixExchange.System.Sections
import FixExchange.System.History
import FixExchange.System.OrderReports
import FixExchange.System.FeedPriority
import FixExchange.System.Lives
import FixExchange.System.Outcomes
import FixExchange.System.NewOrders
import FixExchange.System.OpenOrders
import FixExchange.System.Owners
import FixExchange.System.Ownership
import FixExchange.System.Protocol
import FixExchange.System.Requests
import FixExchange.System.RestingTable
import FixExchange.System.Restored
import FixExchange.Ui.Browser
import FixExchange.Ui.Datagram
import FixExchange.Ui.Snapshot
import FixExchange.System.Quiescence
import FixExchange.System.Linearization
import FixExchange.Ui.Blotter
import FixExchange.System.Cancels
import FixExchange.Ui.OpenRows
import FixExchange.Ui.OrderEntry
import FixExchange.System.TradeTape
import FixExchange.Ui.Chart
import FixExchange.Ui.Page
import FixExchange.Ui.Screen
import FixExchange.Ui.BookView
import FixExchange.Admin.LatencyStats
