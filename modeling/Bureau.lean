import Bureau.Main
import Bureau.Proofs.Attempt
import Bureau.Proofs.Corridor.Acceptance
import Bureau.Proofs.Corridor.Registry
import Bureau.Proofs.Decimal.Arithmetic
import Bureau.Proofs.Decimal.Places
import Bureau.Proofs.Decimal.Precision
import Bureau.Proofs.Decimal.Rounding
import Bureau.Proofs.Decimal.Text
import Bureau.Proofs.Decimal.Value
import Bureau.Proofs.Desk.Answers
import Bureau.Proofs.Desk.Batch
import Bureau.Proofs.Desk.CacheWindow
import Bureau.Proofs.Desk.CrashFree
import Bureau.Proofs.Desk.LockBook
import Bureau.Proofs.Desk.LockLength
import Bureau.Proofs.Desk.Margin
import Bureau.Proofs.Desk.OwnPrice
import Bureau.Proofs.Desk.Pricing
import Bureau.Proofs.Desk.QuoteCurrencies
import Bureau.Proofs.Desk.QuoteFees
import Bureau.Proofs.Desk.QuoteOrder
import Bureau.Proofs.Desk.QuotePrecision
import Bureau.Proofs.Desk.Quotes
import Bureau.Proofs.Desk.Reach
import Bureau.Proofs.Desk.Standard
import Bureau.Proofs.Document.Kinds
import Bureau.Proofs.Document.RoundTrip
import Bureau.Proofs.Feed.Basic
import Bureau.Proofs.Feed.Batches
import Bureau.Proofs.Feed.Closing
import Bureau.Proofs.Feed.Stopping
import Bureau.Proofs.Feed.Subscriptions
import Bureau.Proofs.Host.Calm
import Bureau.Proofs.Host.Course
import Bureau.Proofs.Host.Crew
import Bureau.Proofs.Host.Feeds
import Bureau.Proofs.Host.Reaper
import Bureau.Proofs.Host.Remote
import Bureau.Proofs.Host.Serving
import Bureau.Proofs.Host.Steps
import Bureau.Proofs.Host.Stopping
import Bureau.Proofs.Json.RoundTrip
import Bureau.Proofs.Money.PairList
import Bureau.Proofs.Node.Environment
import Bureau.Proofs.Node.Silence
import Bureau.Proofs.Node.Stopping
import Bureau.Proofs.Office.Background
import Bureau.Proofs.Office.Lifetime
import Bureau.Proofs.Program.Extension
import Bureau.Proofs.Program.Keys
import Bureau.Proofs.Program.Queries
import Bureau.Proofs.Program.Results
import Bureau.Proofs.Provider.Bracket
import Bureau.Proofs.Provider.DriftBounds
import Bureau.Proofs.Provider.Independence
import Bureau.Proofs.Provider.Market
import Bureau.Proofs.Provider.Moderate
import Bureau.Proofs.Provider.OneInstant
import Bureau.Proofs.Provider.Precision
import Bureau.Proofs.Provider.Readings
import Bureau.Proofs.Provider.Routes
import Bureau.Proofs.Provider.Routing
import Bureau.Proofs.Provider.Settings
import Bureau.Proofs.Provider.Walk
import Bureau.Proofs.Random.Unit
import Bureau.Proofs.Rate.Bracket
import Bureau.Proofs.Rate.Margin
import Bureau.Proofs.Rate.Precision
import Bureau.Proofs.Remote.Basic
import Bureau.Proofs.Remote.Locks
import Bureau.Proofs.Remote.Pricing
import Bureau.Proofs.Remote.Trouble
import Bureau.Proofs.Serving.Archive
import Bureau.Proofs.Serving.Basic
import Bureau.Proofs.Serving.Locks
import Bureau.Proofs.Serving.Records
import Bureau.Proofs.Serving.Run
import Bureau.Proofs.Store.History
import Bureau.Proofs.Store.Interludes
import Bureau.Proofs.Store.Lifetime
import Bureau.Proofs.Store.Replacement
import Bureau.Proofs.Store.TimedMap
import Bureau.Proofs.Text.Digits
import Bureau.Proofs.Text.Trim
import Bureau.Proofs.Time.Calendar
import Bureau.Proofs.Time.Clock
import Bureau.Proofs.Time.Instant
import Bureau.Proofs.Time.Text
