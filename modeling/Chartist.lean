import Chartist.Adaptive.Basic
import Chartist.Adaptive.Fractal
import Chartist.Adaptive.Rule
import Chartist.Bar
import Chartist.Cache
import Chartist.Calendar.Date
import Chartist.Calendar.Pattern
import Chartist.Calendar.Reader
import Chartist.Calendar.Stamp
import Chartist.Catalog.Config
import Chartist.Catalog.Entry
import Chartist.Catalog.Schema
import Chartist.Command.Evaluation
import Chartist.Command.Invocation
import Chartist.Command.Program
import Chartist.Command.Report
import Chartist.Command.Switch
import Chartist.Csv.Bars
import Chartist.Csv.Record
import Chartist.Decimal.Binary64
import Chartist.Decimal.Fixed
import Chartist.Decimal.Layout
import Chartist.Decimal.Numeral
import Chartist.Decimal.Power
import Chartist.Decimal.Shortest
import Chartist.Decimal.Spelling
import Chartist.Error
import Chartist.Filter.Cascade
import Chartist.Filter.Exponential
import Chartist.Filter.Kalman
import Chartist.Filter.Laguerre
import Chartist.Filter.Linear
import Chartist.Indicator.Bundle
import Chartist.Indicator.Handler
import Chartist.Indicator.Method
import Chartist.Indicator.OnBars
import Chartist.Indicator.OnSeries
import Chartist.Indicator.Rsi
import Chartist.Json.Basic
import Chartist.Json.Decode
import Chartist.Json.Form
import Chartist.Json.Reader
import Chartist.Json.Token
import Chartist.Json.Writer
import Chartist.Main
import Chartist.Position
import Chartist.Proofs.Cache.Binary64
import Chartist.Proofs.Cache.Indicator
import Chartist.Proofs.Cache.Key
import Chartist.Proofs.Cache.Log
import Chartist.Proofs.Cache.Node
import Chartist.Proofs.Cache.Request
import Chartist.Proofs.Cache.Settle
import Chartist.Proofs.Cache.Text
import Chartist.Proofs.Cache.Uncached
import Chartist.Proofs.Cache.Visit
import Chartist.Proofs.Calendar.Count
import Chartist.Proofs.Catalog
import Chartist.Proofs.Catalog.Completion
import Chartist.Proofs.Catalog.Layout
import Chartist.Proofs.Catalog.RoundTrip
import Chartist.Proofs.Causal.Basic
import Chartist.Proofs.Causal.Filter
import Chartist.Proofs.Causal.Indicator
import Chartist.Proofs.Causal.Stop
import Chartist.Proofs.Causal.Window
import Chartist.Proofs.Command.Source
import Chartist.Proofs.Csv.TimeOrder
import Chartist.Proofs.Decimal.Shortest
import Chartist.Proofs.Decimal.Text
import Chartist.Proofs.Exact.Bands
import Chartist.Proofs.Exact.Basic
import Chartist.Proofs.Exact.Best
import Chartist.Proofs.Exact.Candidate
import Chartist.Proofs.Exact.Cascade
import Chartist.Proofs.Exact.Chandelier
import Chartist.Proofs.Exact.Design
import Chartist.Proofs.Exact.Deviation
import Chartist.Proofs.Exact.Filter
import Chartist.Proofs.Exact.Fractal
import Chartist.Proofs.Exact.Gap
import Chartist.Proofs.Exact.History
import Chartist.Proofs.Exact.Kalman
import Chartist.Proofs.Exact.Kernel
import Chartist.Proofs.Exact.Laguerre
import Chartist.Proofs.Exact.Linear
import Chartist.Proofs.Exact.Missing
import Chartist.Proofs.Exact.Nested
import Chartist.Proofs.Exact.Pause
import Chartist.Proofs.Exact.Progress
import Chartist.Proofs.Exact.Range
import Chartist.Proofs.Exact.Rank
import Chartist.Proofs.Exact.Rsi
import Chartist.Proofs.Exact.Smoother
import Chartist.Proofs.Exact.Stop
import Chartist.Proofs.Exact.Strength
import Chartist.Proofs.Exact.Window
import Chartist.Proofs.Extended
import Chartist.Proofs.ExtendedReal
import Chartist.Proofs.Indexed.Adaptive
import Chartist.Proofs.Indexed.Basic
import Chartist.Proofs.Indexed.Cached
import Chartist.Proofs.Indexed.Filter
import Chartist.Proofs.Indexed.Indicator
import Chartist.Proofs.Indexed.Session
import Chartist.Proofs.Indexed.Window
import Chartist.Proofs.Json.Form
import Chartist.Proofs.Json.Members
import Chartist.Proofs.Json.Record
import Chartist.Proofs.Local.Basic
import Chartist.Proofs.Local.Deque
import Chartist.Proofs.Local.Indicator
import Chartist.Proofs.Lookup
import Chartist.Proofs.Order.Basic
import Chartist.Proofs.Order.Binary64
import Chartist.Proofs.Order.Bits
import Chartist.Proofs.Order.Extreme
import Chartist.Proofs.Order.Gap
import Chartist.Proofs.Order.Median
import Chartist.Proofs.Order.Sorted
import Chartist.Proofs.Order.Trigger
import Chartist.Proofs.Ratio
import Chartist.Proofs.Real
import Chartist.Proofs.Reduction
import Chartist.Proofs.Session
import Chartist.Proofs.Session.Once
import Chartist.Proofs.Stable.Basic
import Chartist.Proofs.Stable.Filter
import Chartist.Proofs.Stable.Pole
import Chartist.Proofs.Whole
import Chartist.Proofs.Word.Adaptive
import Chartist.Proofs.Word.Extreme
import Chartist.Proofs.Word.Handler
import Chartist.Proofs.Word.Window
import Chartist.Register
import Chartist.Request
import Chartist.Scalar
import Chartist.Scalar.Binary64
import Chartist.Session
import Chartist.Settings.Basic
import Chartist.Settings.Document
import Chartist.Settings.Load
import Chartist.Settings.Reader
import Chartist.Settings.Setting
import Chartist.Source
import Chartist.Source.SipHash
import Chartist.Stop
import Chartist.Text.Blank
import Chartist.Text.Radix
import Chartist.Toml.Document
import Chartist.Toml.Number
import Chartist.Toml.Text
import Chartist.Toml.Value
import Chartist.Toml.Writer
import Chartist.Window.Basic
import Chartist.Window.Kernel
import Chartist.Window.Lanes
import Chartist.Window.Rolling
import Chartist.Window.Word
