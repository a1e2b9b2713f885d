import DockDoe.Model.Config
import DockDoe.Model.CollectionCycles
import DockDoe.Model.DockerClient

/-! The collectors of all hosts on one store. Each samples its own host, and persists a
cycle step by step: the steps of different collectors interleave in any order.
-/

namespace DockDoe

/-- A span of time, in milliseconds. -/
abbrev Duration := ℕ

namespace Duration

def fromSecs (secs : ℕ) : Duration :=
  secs * 1000

def asSecs (d : Duration) : ℕ :=
  d / 1000

end Duration

/-- A duration as a `u64`, which saturates. -/
def durationMs (d : Duration) : ℕ :=
  min d u64Max

/-- Tunables for the collection loop (`collector::Config`). -/
structure CollectorConfig where
  interval : Duration
  rawRetention : Duration
  trendBucketSecs : ℕ
  trendRetention : Duration
  pruneInterval : Duration

/-- The collector settings of a host that is sampled at some interval. -/
def collectorConfig (cfg : AppConfig) (effectiveIntervalSecs : ℕ) : CollectorConfig where
  interval := .fromSecs effectiveIntervalSecs
  rawRetention := .fromSecs cfg.rawRetentionSecs
  trendBucketSecs := cfg.trendBucketSecs
  trendRetention := .fromSecs cfg.trendRetentionSecs
  pruneInterval := .fromSecs cfg.pruneIntervalSecs

/-- How much history the charts are seeded with. -/
def seedWindow (cfg : AppConfig) : Duration :=
  .fromSecs cfg.rawRetentionSecs

/-- How many sample cycles between retention prunes, at least one. -/
def pruneCadence (pruneInterval interval : Duration) : ℕ :=
  max (pruneInterval.asSecs / max interval.asSecs 1) 1

/-- One of the steps that persist a cycle, each under its own lock of the store. -/
inductive StoreStep
  | insertSamples (tsMs : ℕ) (containers : List ContainerMetrics)
  | insertContainerTrends (trends : List ContainerTrend)
  | pruneRaw (beforeMs : ℕ)
  | pruneTrends (beforeMs : ℕ)

def StoreStep.run (host : String) (store : Store) : StoreStep → Except SqlError Store
  | .insertSamples tsMs containers => store.insertSamples host tsMs containers
  | .insertContainerTrends trends => store.insertContainerTrends trends
  | .pruneRaw beforeMs => .ok (store.pruneRaw beforeMs)
  | .pruneTrends beforeMs => .ok (store.pruneTrends beforeMs)

/-- The collection loop of one host between two steps. -/
structure Collector where
  host : String
  config : CollectorConfig
  docker : DockerClient
  bucketer : Bucketer
  cycle : ℕ
  primed : Bool
  /-- What is still to be done to persist the current cycle. -/
  pending : List StoreStep

namespace Collector

/-- A collector that has not ticked yet. -/
def started (host : String) (config : CollectorConfig) : Collector where
  host
  config
  docker := .connected
  bucketer := .new config.trendBucketSecs host
  cycle := 0
  primed := false
  pending := []

/-- The steps that prune what has aged out at the time of a cycle. -/
def pruneSteps (collector : Collector) (tsMs : ℕ) : List StoreStep :=
  let config := collector.config
  if collector.cycle % pruneCadence config.pruneInterval config.interval = 0 then
    [.pruneRaw (tsMs - durationMs config.rawRetention),
      .pruneTrends (tsMs - durationMs config.trendRetention)]
  else
    []

/-- One turn of the loop, up to the persisting of its cycle: a failing listing skips it, and
the first cycle only primes the delta-based readings. A bucket width of zero panics. A
closing bucket is drained in no particular order.
-/
def tick (collector : Collector)
    (hashOrder : List ContainerTrend → List ContainerTrend)
    (listing : Except BollardError (List ListedContainer))
    (fetchStats : String → Option StatsSample) (now tsMs : ℕ)
    : Option Collector :=
  match collector.docker.collect listing fetchStats now with
  | (docker, .error _) => some { collector with docker }
  | (docker, .ok containers) =>
      if !collector.primed then
        some { collector with docker, primed := true }
      else do
        let (bucketer, flushed) ← collector.bucketer.push { tsMs, containers }
        return {
          collector with
          docker
          bucketer
          cycle := collector.cycle + 1
          pending :=
            [.insertSamples tsMs containers, .insertContainerTrends (hashOrder flushed)]
            ++ collector.pruneSteps tsMs
        }

end Collector

/-- A sample that was taken of a container. -/
structure Sample where
  host : String
  tsMs : ℕ
  container : ContainerMetrics

def Sample.row (sample : Sample) : SampleRow :=
  .ofContainer sample.host sample.tsMs sample.container

/-- The samples that a step inserts. -/
def StoreStep.inserts (host : String) : StoreStep → List Sample
  | .insertSamples tsMs containers => containers.map (fun c => { host, tsMs, container := c })
  | _ => []

/-- The collectors on their store, the wall clock, and every sample ever inserted. -/
structure System (ι : Type) where
  collectors : ι → Collector
  store : Store
  clock : ℕ
  inserted : List Sample

variable {ι : Type} [DecidableEq ι]

/-- The state in which one collector is another. -/
def System.withCollector (s : System ι) (i : ι) (collector : Collector) : System ι :=
  { s with collectors := Function.update s.collectors i collector }

/-- The steps of the system: time passes, a collector that is idle ticks, or one persists
another part of its cycle, which may fail and then ends the cycle.
-/
inductive System.Step : System ι → System ι → Prop
  | wait (s : System ι) (now : ℕ) (later : s.clock ≤ now) : Step s { s with clock := now }
  | tick (s : System ι) (i : ι) (next : Collector)
      (hashOrder : List ContainerTrend → List ContainerTrend)
      (listing : Except BollardError (List ListedContainer))
      (fetchStats : String → Option StatsSample) (now : ℕ)
      (idle : (s.collectors i).pending = [])
      (drains : ∀ trends, (hashOrder trends).Perm trends)
      (ticked : (s.collectors i).tick hashOrder listing fetchStats now s.clock = some next)
    : Step s (s.withCollector i next)
  | persist (s : System ι) (i : ι) (step : StoreStep) (rest : List StoreStep) (store : Store)
      (due : (s.collectors i).pending = step :: rest)
      (ran : step.run (s.collectors i).host s.store = .ok store)
    : Step s {
        s.withCollector i { s.collectors i with pending := rest } with
        store
        inserted := s.inserted ++ step.inserts (s.collectors i).host
      }
  | fail (s : System ι) (i : ι) (step : StoreStep) (rest : List StoreStep)
      (due : (s.collectors i).pending = step :: rest)
    : Step s (s.withCollector i { s.collectors i with pending := [] })

/-- The collectors of a configuration start on a store that holds some samples. -/
structure System.Started (cfg : AppConfig) (past : List Sample) (s : System ι) : Prop where
  collectors
    : ∀ i, ∃ host effectiveIntervalSecs,
        s.collectors i = .started host (collectorConfig cfg effectiveIntervalSecs)
  inserted : s.inserted = past
  samples : s.store.containerSample = past.map Sample.row

end DockDoe
