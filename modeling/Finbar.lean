import Finbar.Lib.Run
import Finbar.Lib.Ledger
import Finbar.Lib.Journal
import Finbar.Lib.Python
import Finbar.Lib.Product
import Finbar.Lib.Distinct
import Finbar.Lib.Entries
import Finbar.Lib.PyValue
import Finbar.Lib.FloatList
import Finbar.Simulation.Config
import Finbar.Simulation.State
import Finbar.Simulation.MarginAccount
import Finbar.Simulation.PositionSizer
import Finbar.Simulation.PositionCloser
import Finbar.Simulation.PositionOpener
import Finbar.Simulation.PositionExecutor
import Finbar.Backtest.Frame
import Finbar.Backtest.RequiredData
import Finbar.Backtest.Runner
import Finbar.Backtest.RunTheorems
import Finbar.Backtest.Metrics
import Finbar.Backtest.CashTheorems
import Finbar.Backtest.MarginModeTheorems
import Finbar.Backtest.ExitPriceTheorems
import Finbar.Backtest.StopTheorems
import Finbar.Backtest.Engine
import Finbar.Backtest.ParamTheorems
import Finbar.Backtest.PendingTheorems
import Finbar.Backtest.ExitDateTheorems
import Finbar.Backtest.EquityTheorems
import Finbar.Backtest.Optimizer
import Finbar.Backtest.OptimizerTheorems
import Finbar.Lib.Dictionary
import Finbar.Lib.Latest
import Finbar.Evaluation.Condition
import Finbar.Evaluation.Strategy
import Finbar.Evaluation.CrossoverTheorems
import Finbar.Evaluation.RiskPriceTheorems
import Finbar.Evaluation.MissingTheorems
import Finbar.Lib.Deque
import Finbar.Lib.SlidingSum
import Finbar.Lib.RingBuffer
import Finbar.Lib.Resets
import Finbar.Lib.Machine
import Finbar.Lib.Calls
import Finbar.Streaming.SessionVp
import Finbar.Streaming.ValueAreaTheorems
import Finbar.Streaming.VolumeProfile
import Finbar.Streaming.SessionVpTheorems
import Finbar.Streaming.States
import Finbar.Streaming.WindowStateTheorems
import Finbar.Streaming.FloatStates
import Finbar.Streaming.FloatStateTheorems
import Finbar.Streaming.Names
import Finbar.Streaming.Windowed
import Finbar.Streaming.WindowedTheorems
import Finbar.Streaming.NameTheorems
import Finbar.Streaming.Engine
import Finbar.Streaming.EngineTheorems
import Finbar.Streaming.FamilyTheorems
import Finbar.Streaming.ResetTheorems
import Finbar.Lib.AsOf
import Finbar.Enrichment.Cursor
import Finbar.Enrichment.CursorTheorems
import Finbar.Lib.OrderedDict
import Finbar.Enrichment.Interval
import Finbar.Enrichment.Enricher
import Finbar.Enrichment.Merger
import Finbar.Enrichment.MergeTheorems
import Finbar.Enrichment.ParallelTheorems
import Finbar.Enrichment.TrackTheorems
import Finbar.Portfolio.Backtest
import Finbar.Portfolio.CapitalTheorems
import Finbar.Portfolio.AggregateTheorems
import Finbar.Lib.Json
import Finbar.Parser.Helpers
import Finbar.Parser.Declarations
import Finbar.Parser.Features
import Finbar.Parser.Risk
import Finbar.Parser.Conditions
import Finbar.Parser.Collector
import Finbar.Parser.Definition
import Finbar.Indicators.Formula
import Finbar.Indicators.FormulaTheorems
import Finbar.Indicators.RollingProfile
import Finbar.Indicators.MarketProfile
import Finbar.Indicators.MarketProfileTheorems
import Finbar.Indicators.TrendStructure
import Finbar.Indicators.TrendStructureTheorems
import Finbar.Indicators.Dependencies
import Finbar.Indicators.DependenciesTheorems
import Finbar.Parser.ParseTheorems
import Finbar.Evaluation.Footprint
import Finbar.Parser.RequiredColumnTheorems
import Finbar.Evaluation.Relabelling
import Finbar.Parser.Reread
import Finbar.Parser.RoundTripTheorems
import Finbar.Parser.RereadTheorems
import Finbar.Lib.While
import Finbar.Lib.Window
import Finbar.Lib.Ranking
import Finbar.Optimization.FoldIndices
import Finbar.Optimization.GridSearch
import Finbar.Optimization.WalkForward
import Finbar.Optimization.FoldTheorems
import Finbar.Optimization.FoldRunTheorems
import Finbar.Optimization.RankingTheorems
import Finbar.Optimization.ParamRange
import Finbar.Optimization.Sensitivity
import Finbar.Optimization.SensitivityTheorems
import Finbar.Optimization.ParamRangeTheorems
import Finbar.Lib.Steps
import Finbar.Lib.Gate
import Finbar.Lib.Spacing
import Finbar.RateLimit.Yahoo
import Finbar.RateLimit.Hyperliquid
import Finbar.RateLimit.YahooTheorems
import Finbar.RateLimit.BackoffTheorems
import Finbar.RateLimit.HyperliquidTheorems
import Finbar.Optimization.Jobs
import Finbar.Optimization.JobTheorems
import Finbar.Parity.CertificateTheorems
import Finbar.Parity.CausalFrame
import Finbar.IndicatorJobs.Runner
import Finbar.IndicatorJobs.ReuseTheorems
import Finbar.IndicatorJobs.Pages
import Finbar.IndicatorJobs.PageTheorems
import Finbar.IndicatorJobs.Manager
import Finbar.IndicatorJobs.ManagerTheorems
import Finbar.Parity.CausalFrameTheorems
import Finbar.Lib.Series
import Finbar.Streaming.ValueSignals
import Finbar.Streaming.ValueSignalTheorems
import Finbar.Simulation.EntryTheorems
import Finbar.Lib.Rounding
import Finbar.Backtest.ReconciliationTheorems
import Finbar.Backtest.MarginTheorems
import Finbar.Lib.Drawdown
import Finbar.Backtest.DrawdownTheorems
import Finbar.Lib.Grouping
import Finbar.Streaming.PocSlope
import Finbar.Streaming.PocSlopeTheorems
import Finbar.Derivatives.Merger
import Finbar.Derivatives.MergerTheorems
import Finbar.Lib.Calendar
import Finbar.Lib.Paging
import Finbar.Fetch.Hyperliquid
import Finbar.Fetch.HyperliquidTheorems
import Finbar.Pipeline.Jobs
import Finbar.Pipeline.BacktestTheorems
import Finbar.Streaming.VsaSignals
import Finbar.Streaming.VsaSignalTheorems
import Finbar.Lib.LastOfEach
import Finbar.Lib.Worklist
import Finbar.Lib.Kahn
import Finbar.Backtest.Projection
import Finbar.Backtest.ProjectionTheorems
import Finbar.Lib.Tally
import Finbar.Backtest.RollingMetrics
import Finbar.Backtest.RollingMetricsTheorems
import Finbar.Backtest.RollingSharpeTheorems
import Finbar.Lib.Compounding
import Finbar.Backtest.YearlyReturnTheorems
import Finbar.Lib.Latch
import Finbar.Lib.Causal
import Finbar.Indicators.SmcPriceAction
import Finbar.Indicators.StructureBreakTheorems
import Finbar.Indicators.BillWilliams
import Finbar.Indicators.SupplyDemand
import Finbar.Indicators.VolumeSpread
import Finbar.Indicators.BreakCausality
import Finbar.Indicators.PriceColumns
import Finbar.Streaming.PriceColumns
import Finbar.Lib.Eviction
import Finbar.Results.Store
import Finbar.Results.HistoryTheorems
import Finbar.Results.Listing
import Finbar.Backtest.ContinuationTheorems
import Finbar.Enrichment.NoLookahead
import Finbar.Lib.Table
import Finbar.Prices.Cache
import Finbar.Prices.CacheTheorems
import Finbar.Prices.DateRange
import Finbar.Lib.SlidingLog
import Finbar.RateLimit.CoinGlass
import Finbar.RateLimit.CoinGlassTheorems
import Finbar.Lib.Sessions
import Finbar.Indicators.SessionColumns
import Finbar.Indicators.VwapBands
import Finbar.IndicatorJobs.RetentionTheorems
import Finbar.Parser.IndicatorCatalog
import Finbar.Streaming.SessionColumns
import Finbar.Parser.CatalogTheorems
import Finbar.Enrichment.DueTheorems
