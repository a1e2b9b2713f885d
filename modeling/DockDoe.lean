import DockDoe.Foundations.KeyedFolds
import DockDoe.Foundations.NullableAggregates
import DockDoe.Foundations.WeightedMeans
import DockDoe.Foundations.NullableBands
import DockDoe.Foundations.FallibleLists
import DockDoe.Foundations.Stretches
import DockDoe.Model.SampleQueries
import DockDoe.Model.Tracker
import DockDoe.Correctness.SampleSeeds
import DockDoe.Model.StoreTables
import DockDoe.Correctness.SettledChanges
import DockDoe.Foundations.OrderStatistics
import DockDoe.Foundations.Transducers
import DockDoe.Model.TrendRows
import DockDoe.Model.Bucketer
import DockDoe.Correctness.BucketContents
import DockDoe.Correctness.BucketRollups
import DockDoe.Foundations.Delimiters
import DockDoe.Foundations.LossyUtf8
import DockDoe.Foundations.Cuts
import DockDoe.Model.Texts
import DockDoe.Model.DockerEndpoint
import DockDoe.Model.Stacks
import DockDoe.Model.Requests
import DockDoe.Model.HostActions
import DockDoe.Foundations.Stages
import DockDoe.Foundations.Traces
import DockDoe.Correctness.EndpointCalls
import DockDoe.Correctness.StackOrder
import DockDoe.Correctness.DependencyWaits
import DockDoe.Model.SseParser
import DockDoe.Correctness.ChunkedStreams
import DockDoe.Correctness.ChunkedEvents
import DockDoe.Model.TrendInserts
import DockDoe.Correctness.TrendWrites
import DockDoe.Correctness.PivotedEnvelopes
import DockDoe.Correctness.StoredExtremes
import DockDoe.Correctness.SampleWeights
import DockDoe.Model.Migration
import DockDoe.Correctness.LegacyPivots
import DockDoe.Correctness.Upgrades
import DockDoe.Correctness.BestCoverage
import DockDoe.Model.HistoryQueries
import DockDoe.Correctness.OrderedEnvelopes
import DockDoe.Correctness.CollectedHistories
import DockDoe.Foundations.Downsampling
import DockDoe.Correctness.ReadOnlyLatch
import DockDoe.Model.Sessions
import DockDoe.Correctness.HeaderTexts
import DockDoe.Correctness.SessionCookies
import DockDoe.Correctness.SamplingIntervals
import DockDoe.Foundations.PercentCoding
import DockDoe.Foundations.UrlPaths
import DockDoe.Model.NodeClient
import DockDoe.Correctness.Confinement
import DockDoe.Model.Router
import DockDoe.Correctness.AccessControl
import DockDoe.Correctness.ForeignRequests
import DockDoe.Correctness.HubAccess
import DockDoe.Correctness.FederatedActions
import DockDoe.Correctness.StartBackOff
import DockDoe.Correctness.CounterRates
import DockDoe.Model.Collectors
import DockDoe.Model.HistoryWindows
import DockDoe.Correctness.RawWindows
import DockDoe.Model.StackCharts
import DockDoe.Correctness.StackSeeds
import DockDoe.Correctness.EventRoundTrips
import DockDoe.Correctness.CyclicStacks
import DockDoe.Correctness.PivotedRows
import DockDoe.Correctness.BatchAttribution
import DockDoe.Model.HistoryResponses
import DockDoe.Correctness.BoundedHistories
import DockDoe.Correctness.ListedHosts
import DockDoe.Correctness.Logins
import DockDoe.Foundations.Authorities
import DockDoe.Model.EndpointReadings
import DockDoe.Correctness.EndpointReadings
import DockDoe.Foundations.StableSorts
import DockDoe.Correctness.PortOrder
import DockDoe.Model.LogLines
import DockDoe.Correctness.StrippedLogs
import DockDoe.Model.Overview
import DockDoe.Correctness.OverviewOrder
import DockDoe.Foundations.Json
import DockDoe.Correctness.OverviewSeeds
import DockDoe.Correctness.ByteSizes
import DockDoe.Correctness.BucketWidths
import DockDoe.Foundations.Tilings
import DockDoe.Correctness.MigrationChunks
import DockDoe.Foundations.BrokenLines
import DockDoe.Model.LiveCharts
import DockDoe.Correctness.ChartedLines
import DockDoe.Correctness.DependencyLabels
import DockDoe.Correctness.RenderedLogs
import DockDoe.Foundations.JsonRecords
import DockDoe.Model.Snapshots
import DockDoe.Correctness.SnapshotRoundTrips
import DockDoe.Model.Mirroring
import DockDoe.Correctness.MirroredHosts
import DockDoe.Correctness.FreshMirrors
import DockDoe.Correctness.RelayedTerminals
import DockDoe.Correctness.LiveConnections
import DockDoe.Correctness.LiveTimelines
import DockDoe.Correctness.HistoryTrails
import DockDoe.Correctness.RenderedHistories
import DockDoe.Correctness.KeptTrends
import DockDoe.Correctness.DiscTrails
import DockDoe.Correctness.LastingLogins
