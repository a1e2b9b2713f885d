import DockDoe.Model.Containers
import DockDoe.Model.DockerEndpoint

/-! The client that a host's collector samples its containers with: it remembers the
counters of prior samples, so that it can turn cumulative counters into rates.
-/

namespace DockDoe

/-- The greatest value of a `u64`. -/
def u64Max : ℕ := 2 ^ 64 - 1

/-- `u64::saturating_add`. -/
def saturatingAddU64 (a b : ℕ) : ℕ := min (a + b) u64Max

section Listing

/-- A container's state in a listing (`ContainerSummaryStateEnum`). -/
inductive ListedState
  | empty | created | running | paused | restarting | exited | removing | dead | stopping
  deriving DecidableEq

/-- The transport of a listed port (`PortSummaryTypeEnum`). -/
inductive PortType
  | empty | tcp | udp | sctp

structure PortSummary where
  privatePort : ℕ
  publicPort : Option ℕ
  typ : Option PortType

/-- What else a listing says of a container. -/
structure ListedContainer extends ContainerSummary where
  names : Option (List Text)
  image : Option Text
  state : Option ListedState
  status : Option Text
  ports : Option (List PortSummary)

namespace ListedContainer

def isRunning (summary : ListedContainer) : Bool :=
  summary.state == some .running

def idOf (summary : ListedContainer) : String :=
  .ofList (summary.id.getD [])

/-- First name with the leading slash stripped, or a short id. -/
def displayName (summary : ListedContainer) : Text :=
  match summary.names.bind List.head? with
  | none => (summary.id.getD []).take 12
  | some name => name.dropWhile (· == '/')

def composeProject (summary : ListedContainer) : Option Text :=
  summary.labels.bind (·.lookup "com.docker.compose.project".toList)

def listedPort (p : PortSummary) : Port where
  privatePort := p.privatePort
  publicPort := p.publicPort
  proto :=
    match p.typ with
    | some .udp => "udp"
    | some .sctp => "sctp"
    | _ => "tcp"

/-- Published ports come first, by host port; internal ones go by container port. -/
def portLe (a b : Port) : Bool :=
  match a.publicPort, b.publicPort with
  | some x, some y => x ≤ y
  | some _, none => true
  | none, some _ => false
  | none, none => a.privatePort ≤ b.privatePort

/-- Ports a container exposes, each once, in a stable order. -/
def exposedPorts (summary : ListedContainer) : List Port :=
  (((summary.ports.getD []).map listedPort).eraseDups).mergeSort portLe

end ListedContainer

def mapState : Option ListedState → ContainerState
  | some .created => .created
  | some .running => .running
  | some .paused => .paused
  | some .restarting => .restarting
  | some .exited => .exited
  | some .removing => .removing
  | some .dead => .dead
  | some .stopping => .stopping
  | some .empty | none => .unknown

/-- Health as the status line tells it. -/
def parseHealth (status : Text) : HealthState :=
  if (Cuts.cut "(healthy)".toList status).isSome then
    .healthy
  else if (Cuts.cut "(unhealthy)".toList status).isSome then
    .unhealthy
  else if (Cuts.cut "(health: starting)".toList status).isSome then
    .starting
  else
    .none

end Listing

section Samples

structure CpuUsage where
  totalUsage : Option ℕ
  percpuUsage : Option (List ℕ)

structure CpuStats where
  cpuUsage : Option CpuUsage
  systemCpuUsage : Option ℕ
  onlineCpus : Option ℕ

structure MemoryStats where
  usage : Option ℕ
  stats : Option (List (Text × ℕ))
  limit : Option ℕ

structure NetworkStats where
  rxBytes : Option ℕ
  txBytes : Option ℕ

structure BlkioEntry where
  op : Option Text
  value : Option ℕ

structure BlkioStats where
  ioServiceBytesRecursive : Option (List BlkioEntry)

/-- One stats sample of a container (`ContainerStatsResponse`). -/
structure StatsSample where
  cpuStats : Option CpuStats
  memoryStats : Option MemoryStats
  networks : Option (List (Text × NetworkStats))
  blkioStats : Option BlkioStats

/-- Number of CPUs available to a container: as reported, else the per-core counters, else 1. -/
def onlineCpus (cpuStats : CpuStats) : ℚ :=
  let reported :=
    match cpuStats.onlineCpus with
    | some n => some n
    | none => (cpuStats.cpuUsage.bind CpuUsage.percpuUsage).map List.length
  ((reported.filter (fun n => 0 < n)).getD 1 : ℕ)

/-- Memory used, without the reclaimable page cache, and its limit. -/
def memory (stats : StatsSample) : Option ℕ × Option ℕ :=
  match stats.memoryStats with
  | none => (none, none)
  | some mem =>
      let used :=
        mem.usage.map (fun usage =>
          let cache :=
            (mem.stats.bind (fun s =>
              (s.lookup "inactive_file".toList).or (s.lookup "total_inactive_file".toList))).getD 0
          usage - cache)
      (used, mem.limit)

/-- Total received and transmitted bytes across every network interface. -/
def networkTotals (stats : StatsSample) : Option ℕ × Option ℕ :=
  match stats.networks with
  | none => (none, none)
  | some networks =>
      let (rx, tx) :=
        networks.foldl
          (fun (rx, tx) (_, net) =>
            (saturatingAddU64 rx (net.rxBytes.getD 0),
              saturatingAddU64 tx (net.txBytes.getD 0)))
          (0, 0)
      (some rx, some tx)

/-- Total bytes read from and written to block devices. -/
def blkioTotals (stats : StatsSample) : Option ℕ × Option ℕ :=
  match stats.blkioStats.bind BlkioStats.ioServiceBytesRecursive with
  | none => (none, none)
  | some entries =>
      let (read, write) :=
        entries.foldl
          (fun (read, write) e =>
            match e.op with
            | none => (read, write)
            | some op =>
                let value := e.value.getD 0
                if eqIgnoreAsciiCase op "read".toList then
                  (saturatingAddU64 read value, write)
                else if eqIgnoreAsciiCase op "write".toList then
                  (read, saturatingAddU64 write value)
                else
                  (read, write))
          (0, 0)
      (some read, some write)

end Samples

section Rates

/-- The previous CPU counters of one container. -/
structure PrevCpu where
  totalUsage : ℕ
  systemUsage : ℕ

/-- The previous I/O counters of one container and when they were read, in nanoseconds. -/
structure PrevIo where
  netRx : Option ℕ
  netTx : Option ℕ
  diskRead : Option ℕ
  diskWrite : Option ℕ
  readAt : ℕ

/-- Per-second I/O rates of one container. -/
structure IoRates where
  netRx : Option ℚ
  netTx : Option ℚ
  diskRead : Option ℚ
  diskWrite : Option ℚ

def IoRates.default : IoRates where
  netRx := none
  netTx := none
  diskRead := none
  diskWrite := none

/-- A rate from two counter readings, none if either is missing. -/
def rate (now prev : Option ℕ) (secs : ℚ) : Option ℚ := do
  let now ← now
  let prev ← prev
  return ((now - prev : ℕ) : ℚ) / secs

/-- The container's share of the host's CPU time between two samples, in per-core percent. -/
def cpuPercentFromDeltas (prev : PrevCpu) (totalUsage systemUsage : ℕ) (onlineCpus : ℚ) : ℚ :=
  let cpuDelta := totalUsage - prev.totalUsage
  let systemDelta := systemUsage - prev.systemUsage
  if cpuDelta = 0 ∨ systemDelta = 0 then 0 else (cpuDelta : ℚ) / systemDelta * onlineCpus * 100

/-- A client with the samples it remembers, by container id. -/
structure DockerClient where
  prevCpu : Std.ExtTreeMap String PrevCpu
  prevIo : Std.ExtTreeMap String PrevIo

namespace DockerClient

/-- The client of a new connection. -/
def connected : DockerClient where
  prevCpu := ∅
  prevIo := ∅

/-- The counters of a sample that has both, with what it says of the CPUs. -/
def cpuCounters (stats : StatsSample) : Option (CpuStats × PrevCpu) := do
  let cpuStats ← stats.cpuStats
  let totalUsage ← (← cpuStats.cpuUsage).totalUsage
  let systemUsage ← cpuStats.systemCpuUsage
  return (cpuStats, { totalUsage, systemUsage })

/-- CPU utilisation from the delta against the previous sample, which this one replaces. -/
def cpuPercent (client : DockerClient) (id : String) (stats : StatsSample)
    : DockerClient × Option ℚ :=
  match cpuCounters stats with
  | none => (client, none)
  | some (cpuStats, counters) =>
      ({ client with prevCpu := client.prevCpu.insert id counters },
        client.prevCpu[id]?.map (fun prev =>
          cpuPercentFromDeltas prev counters.totalUsage counters.systemUsage
            (onlineCpus cpuStats)))

/-- The I/O counters of a sample. -/
def ioCounters (stats : StatsSample) (now : ℕ) : PrevIo where
  netRx := (networkTotals stats).1
  netTx := (networkTotals stats).2
  diskRead := (blkioTotals stats).1
  diskWrite := (blkioTotals stats).2
  readAt := now

/-- Rates from the deltas against the previous sample, which this one replaces. -/
def ioRates (client : DockerClient) (id : String) (stats : StatsSample) (now : ℕ)
    : DockerClient × IoRates :=
  let counters := ioCounters stats now
  let next := { client with prevIo := client.prevIo.insert id counters }
  match client.prevIo[id]? with
  | none => (next, .default)
  | some prev =>
      let secs : ℚ := ((now - prev.readAt : ℕ) : ℚ) / 10 ^ 9
      if secs ≤ 0 then
        (next, .default)
      else
        (next, {
          netRx := rate counters.netRx prev.netRx secs
          netTx := rate counters.netTx prev.netTx secs
          diskRead := rate counters.diskRead prev.diskRead secs
          diskWrite := rate counters.diskWrite prev.diskWrite secs
        })

/-- The metrics of one container. -/
def buildMetrics (client : DockerClient) (summary : ListedContainer)
    (sample : Option StatsSample) (now : ℕ)
    : DockerClient × ContainerMetrics :=
  let id := summary.idOf
  let status := summary.status.getD []
  let (client, cpu, used, limit) :=
    match sample with
    | some sample =>
        let (client, cpu) := client.cpuPercent id sample
        let (used, limit) := memory sample
        (client, cpu, used, limit)
    | none => (client, none, none, none)
  let (client, io) :=
    match sample with
    | some sample => client.ioRates id sample now
    | none => (client, .default)
  (client, {
    id
    name := .ofList summary.displayName
    image := .ofList (summary.image.getD [])
    state := mapState summary.state
    status := .ofList status
    health := parseHealth status
    stack := summary.composeProject.map .ofList
    cpuPercent := cpu
    memUsed := used
    memLimit := limit
    netRxBps := io.netRx
    netTxBps := io.netTx
    diskReadBps := io.diskRead
    diskWriteBps := io.diskWrite
    ports := summary.exposedPorts
  })

/-- The metrics of listed containers, one after the other. -/
def buildAll (stats : String → Option StatsSample) (now : ℕ)
    : DockerClient → List ListedContainer → DockerClient × List ContainerMetrics
  | client, [] => (client, [])
  | client, summary :: rest =>
      let (client, metrics) := client.buildMetrics summary (stats summary.idOf) now
      let (client, others) := buildAll stats now client rest
      (client, metrics :: others)

/-- The stats of the running containers, by id: those whose sample could be fetched. -/
def fetchedStats (summaries : List ListedContainer) (fetchStats : String → Option StatsSample)
    (id : String)
    : Option StatsSample :=
  let runningIds := (summaries.filter ListedContainer.isRunning).map ListedContainer.idOf
  if runningIds.contains id then fetchStats id else none

/-- Forget the samples of containers that no longer exist. -/
def reap (client : DockerClient) (summaries : List ListedContainer) : DockerClient :=
  let live := (summaries.filterMap (fun s => s.id)).map String.ofList
  { prevCpu := client.prevCpu.filter (fun id _ => live.contains id)
    prevIo := client.prevIo.filter (fun id _ => live.contains id) }

/-- Collect metrics for all containers, running and stopped: `fetchStats` is what reading a
container's stats yields, none if nothing or an error.
-/
def collect (client : DockerClient) (listing : Except BollardError (List ListedContainer))
    (fetchStats : String → Option StatsSample) (now : ℕ)
    : DockerClient × Except Failure (List ContainerMetrics) :=
  match withContext "listing containers".toList listing with
  | .error err => (client, .error err)
  | .ok summaries =>
      let (client, out) :=
        buildAll (fetchedStats summaries fetchStats) now (client.reap summaries) summaries
      (client, .ok out)

end DockerClient

end Rates

end DockDoe
