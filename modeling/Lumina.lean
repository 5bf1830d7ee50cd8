import Lumina.Proc.Basic
import Lumina.Proc.Transaction
import Lumina.Proc.Batch
import Lumina.Sql.Latest
import Lumina.Sql.Group
import Lumina.Sql.Page
import Lumina.Sql.Like
import Lumina.Sql.Coalesce
import Lumina.Graph.Walk
import Lumina.Feed.Segment
import Lumina.Trace.Basic
import Lumina.Trace.Progress
import Lumina.Fold.Best
import Lumina.Csv.Dialect
import Lumina.Sorting.ByKey
import Lumina.Number.Nearest
import Lumina.Model.Decimal
import Lumina.Number.Rounding
import Lumina.Model.Rows
import Lumina.Model.Logic
import Lumina.Model.Alerts
import Lumina.Model.Config
import Lumina.Model.Horizon
import Lumina.Model.Pricing
import Lumina.Model.Soroban
import Lumina.Model.Ingest
import Lumina.Model.Tvl
import Lumina.Model.Queries
import Lumina.Model.Api
import Lumina.Model.Liquidations
import Lumina.Model.Auth
import Lumina.Model.AlertConfig
import Lumina.Model.Cache
import Lumina.Model.Routes
import Lumina.Model.System
import Lumina.Model.RateLimit
import Lumina.Model.UsePolled
import Lumina.Model.SearchBar
import Lumina.Model.Js
import Lumina.Model.Csv
import Lumina.Model.SortableRows
import Lumina.Model.Watchlist
import Lumina.Alerts.Record
import Lumina.Alerts.Recorded
import Lumina.Alerts.Acknowledged
import Lumina.Lending.Decode
import Lumina.Lending.Walk
import Lumina.Lending.Run
import Lumina.Lending.Ties
import Lumina.Lending.Reserves
import Lumina.Lending.Escalation
import Lumina.Lending.Monotone
import Lumina.Lending.Cycle
import Lumina.Lending.NonNegative
import Lumina.Lending.Magnitude
import Lumina.Lending.PriceOverrides
import Lumina.Lending.PanicFree
import Lumina.Lending.UpToDate
import Lumina.Lending.ExactlyOnce
import Lumina.Lending.Dashboard
import Lumina.Payments.Whale
import Lumina.Payments.Log
import Lumina.Payments.GapFree
import Lumina.Payments.Replay
import Lumina.Snapshots.Batch
import Lumina.Snapshots.Isolated
import Lumina.Snapshots.DropGate
import Lumina.Tvl.Stock
import Lumina.Tvl.Priced
import Lumina.Pricing.Hop
import Lumina.Pricing.Route
import Lumina.Pricing.Discovery
import Lumina.Pricing.Overflow
import Lumina.Pricing.Order
import Lumina.Pricing.Depth
import Lumina.Pricing.Positive
import Lumina.Rules.MostRecent
import Lumina.Rules.TakesEffect
import Lumina.Rules.Decided
import Lumina.Alerts.Grading
import Lumina.Api.Pagination
import Lumina.Api.SearchLiteral
import Lumina.Api.AdminKey
import Lumina.Payments.Threshold
import Lumina.Api.TokenBucket
import Lumina.Api.Sweep
import Lumina.Api.CacheRun
import Lumina.Api.CacheTransparent
import Lumina.Api.Windows
import Lumina.Frontend.PolledOrder
import Lumina.Frontend.SearchShown
import Lumina.Frontend.CsvRoundTrip
import Lumina.Frontend.SortedByTime
import Lumina.Frontend.PinToggles
import Lumina.System.Writes
import Lumina.Alerts.Delivery
import Lumina.System.History
import Lumina.System.Keys
import Lumina.System.Configured
import Lumina.Alerts.Accounted
import Lumina.Channel.Broadcast
import Lumina.Model.Events
import Lumina.System.LiveEvents
import Lumina.Model.Live
import Lumina.Frontend.LiveFeed
import Lumina.Model.Server
import Lumina.Text.Cut
import Lumina.Text.Exposition
import Lumina.Trace.Budget
import Lumina.Api.Server
import Lumina.Api.Scrape
import Lumina.Model.AlertsPage
import Lumina.Frontend.AckAll
import Lumina.Sql.Spans
import Lumina.Snapshots.Trends
import Lumina.Proc.Table
import Lumina.System.Polled
import Lumina.Snapshots.Crawl
import Lumina.Snapshots.Polls
import Lumina.Text.Percent
import Lumina.Text.Form
import Lumina.Model.Client
import Lumina.Frontend.Requests
import Lumina.Model.Pages
import Lumina.Frontend.SearchLinks
import Lumina.System.Past
import Lumina.Payments.Progress
import Lumina.Lending.Progress
import Lumina.System.Payments
import Lumina.System.Lending
