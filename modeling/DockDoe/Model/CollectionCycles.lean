import DockDoe.Model.Bucketer
import DockDoe.Model.SampleQueries
import DockDoe.Model.TrendInserts

/-! The collection cycles of one host: each is stored as raw samples and fed to the bucketer,
whose flushed rollups are stored as trends.
-/

namespace DockDoe

/-- The runs of a collector that starts with an empty store and prunes nothing. A closing
bucket is drained in no particular order.
-/
inductive Collected (bucketSecs : ℕ) (host : String) : List Snapshot → Bucketer → Store → Prop
  | start : Collected bucketSecs host [] (.new bucketSecs host) .empty
  | cycle {cycles : List Snapshot} {b next : Bucketer} {store sampled stored : Store}
      {flushed drained : List ContainerTrend} (earlier : Collected bucketSecs host cycles b store)
      (snap : Snapshot) (pushed : b.push snap = some (next, flushed))
      (order : drained.Perm flushed)
      (samples : store.insertSamples host snap.tsMs snap.containers = .ok sampled)
      (trends : sampled.insertContainerTrends drained = .ok stored)
    : Collected bucketSecs host (cycles ++ [snap]) next stored

end DockDoe
