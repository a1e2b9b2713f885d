import DockDoe.Foundations.Baselines
import DockDoe.Foundations.KeyedFolds
import DockDoe.Model.DockerClient

/-! The rates that a client reports over a run of collection cycles.
Both of its maps remember the latest sample of every container that has been listed since,
so a rate is taken from the counters of two cycles.
-/

namespace DockDoe

open Baselines

/-- One cycle whose listing succeeds. -/
structure CollectCycle where
  summaries : List ListedContainer
  fetchStats : String → Option StatsSample
  now : ℕ

namespace CollectCycle

/-- The stats sample that a cycle has of a container. -/
def sampleOf (cycle : CollectCycle) (id : String) : Option StatsSample :=
  DockerClient.fetchedStats cycle.summaries cycle.fetchStats id

/-- Whether a container is listed. -/
def lists (cycle : CollectCycle) (id : String) : Bool :=
  ((cycle.summaries.filterMap (fun s => s.id)).map String.ofList).contains id

/-- Every listed container has an id of its own. -/
structure DistinctIds (cycle : CollectCycle) : Prop where
  each : ∀ s ∈ cycle.summaries, s.id.isSome
  distinct : (cycle.summaries.map ListedContainer.idOf).Nodup

/-- What a cycle has to say of a container's CPU time: a sample is complete if it has both
counters.
-/
def cpuObservation (id : String) (cycle : CollectCycle) : Observation PrevCpu where
  present := cycle.lists id
  sample := ((cycle.sampleOf id).bind DockerClient.cpuCounters).map Prod.snd

/-- What a cycle has to say of a container's I/O. -/
def ioObservation (id : String) (cycle : CollectCycle) : Observation PrevIo where
  present := cycle.lists id
  sample := (cycle.sampleOf id).map (DockerClient.ioCounters · cycle.now)

end CollectCycle

/-- The runs of a client: the cycles, what each reports, and the client afterwards. -/
inductive Collects : List CollectCycle → List (List ContainerMetrics) → DockerClient → Prop
  | start : Collects [] [] .connected
  | cycle {cycles : List CollectCycle} {reports : List (List ContainerMetrics)}
      {client next : DockerClient} {out : List ContainerMetrics}
      (earlier : Collects cycles reports client) (c : CollectCycle)
      (collected : client.collect (.ok c.summaries) c.fetchStats c.now = (next, .ok out))
    : Collects (cycles ++ [c]) (reports ++ [out]) next

/-- The I/O counters a client keeps. -/
inductive IoCounter
  | netRx | netTx | diskRead | diskWrite

def PrevIo.counter (prev : PrevIo) : IoCounter → Option ℕ
  | .netRx => prev.netRx
  | .netTx => prev.netTx
  | .diskRead => prev.diskRead
  | .diskWrite => prev.diskWrite

def ContainerMetrics.ioRate (m : ContainerMetrics) : IoCounter → Option ℚ
  | .netRx => m.netRxBps
  | .netTx => m.netTxBps
  | .diskRead => m.diskReadBps
  | .diskWrite => m.diskWriteBps

/-- The rate of one I/O counter. -/
def IoRates.of (rates : IoRates) : IoCounter → Option ℚ
  | .netRx => rates.netRx
  | .netTx => rates.netTx
  | .diskRead => rates.diskRead
  | .diskWrite => rates.diskWrite

namespace DockerClient

section Container

variable (client : DockerClient) (stats : StatsSample) (now : ℕ) (id other : String)

theorem cpuPercent_prevCpu
    : (client.cpuPercent id stats).1.prevCpu[other]?
      = if id = other then ((cpuCounters stats).map Prod.snd).or client.prevCpu[other]?
        else client.prevCpu[other]? := by
  unfold cpuPercent
  cases cpuCounters stats with
  | none => simp
  | some found => exact KeyedFolds.getElem?_insert client.prevCpu id found.2 other

theorem cpuPercent_prevIo : (client.cpuPercent id stats).1.prevIo = client.prevIo := by
  unfold cpuPercent
  cases cpuCounters stats <;> rfl

/-- A CPU percentage needs the counters of two complete samples. -/
theorem cpuPercent_snd
    : (client.cpuPercent id stats).2
      = (cpuCounters stats).bind (fun (cpuStats, counters) =>
          client.prevCpu[id]?.map (fun prev =>
            cpuPercentFromDeltas prev counters.totalUsage counters.systemUsage
              (onlineCpus cpuStats))) := by
  unfold cpuPercent
  cases cpuCounters stats <;> rfl

/-- Rates or none, the counters of the sample replace those that were remembered. -/
theorem ioRates_fst
    : (client.ioRates id stats now).1
      = { client with prevIo := client.prevIo.insert id (ioCounters stats now) } := by
  unfold ioRates
  cases client.prevIo[id]? with
  | none => rfl
  | some prev =>
      simp only
      split <;> rfl

/-- An I/O rate needs the counters of two samples that are apart in time: seconds are positive
when nanoseconds are.
-/
theorem ioRates_snd (counter : IoCounter)
    : (client.ioRates id stats now).2.of counter
      = client.prevIo[id]?.bind (fun prev =>
          if prev.readAt < now then
            rate ((ioCounters stats now).counter counter) (prev.counter counter)
              (((now - prev.readAt : ℕ) : ℚ) / 10 ^ 9)
          else none) := by
  unfold ioRates
  cases client.prevIo[id]? with
  | none => cases counter <;> rfl
  | some prev =>
      have apart : ((now - prev.readAt : ℕ) : ℚ) / 10 ^ 9 ≤ 0 ↔ ¬ prev.readAt < now := by
        rw [div_le_iff₀ (by positivity), zero_mul, Nat.cast_nonpos]
        omega
      simp only [apart, Option.bind_some]
      by_cases later : prev.readAt < now
      · rw [if_neg (not_not.mpr later), if_pos later]
        cases counter <;> rfl
      · rw [if_pos later, if_neg later]
        cases counter <;> rfl

end Container

section Metrics

variable (client : DockerClient) (summary : ListedContainer) (sample : Option StatsSample)
  (now : ℕ) (id : String)

/-- What is remembered of a container's CPU time after its metrics are built: only a complete
sample replaces it.
-/
theorem buildMetrics_prevCpu
    : (client.buildMetrics summary sample now).1.prevCpu[id]?
      = if summary.idOf = id then
          ((sample.bind cpuCounters).map Prod.snd).or client.prevCpu[id]?
        else client.prevCpu[id]? := by
  cases sample with
  | none => exact (ite_self _).symm
  | some sample =>
      change ((client.cpuPercent summary.idOf sample).1.ioRates _ sample now).1.prevCpu[id]? = _
      rw [ioRates_fst]
      exact cpuPercent_prevCpu client sample summary.idOf id

/-- What is remembered of a container's I/O after its metrics are built: any sample replaces it. -/
theorem buildMetrics_prevIo
    : (client.buildMetrics summary sample now).1.prevIo[id]?
      = if summary.idOf = id then (sample.map (ioCounters · now)).or client.prevIo[id]?
        else client.prevIo[id]? := by
  cases sample with
  | none => exact (ite_self _).symm
  | some sample =>
      change ((client.cpuPercent summary.idOf sample).1.ioRates _ sample now).1.prevIo[id]? = _
      rw [ioRates_fst, cpuPercent_prevIo]
      exact KeyedFolds.getElem?_insert client.prevIo summary.idOf (ioCounters sample now) id

theorem buildMetrics_id
    : (client.buildMetrics summary sample now).2.id = summary.idOf := by
  cases sample <;> rfl

theorem buildMetrics_cpuPercent
    : (client.buildMetrics summary sample now).2.cpuPercent
      = (sample.bind cpuCounters).bind (fun (cpuStats, counters) =>
          client.prevCpu[summary.idOf]?.map (fun prev =>
            cpuPercentFromDeltas prev counters.totalUsage counters.systemUsage
              (onlineCpus cpuStats))) := by
  cases sample with
  | none => rfl
  | some sample => exact cpuPercent_snd client sample summary.idOf

/-- The I/O rates of a container are made from its sample and the one that is remembered of it,
and there are none without a sample.
-/
theorem buildMetrics_ioRate (counter : IoCounter)
    : (client.buildMetrics summary sample now).2.ioRate counter
      = sample.bind (fun sample =>
          client.prevIo[summary.idOf]?.bind (fun prev =>
            if prev.readAt < now then
              rate ((ioCounters sample now).counter counter) (prev.counter counter)
                (((now - prev.readAt : ℕ) : ℚ) / 10 ^ 9)
            else none)) := by
  cases sample with
  | none => cases counter <;> rfl
  | some sample =>
      have rates :=
        ioRates_snd (client.cpuPercent summary.idOf sample).1 sample now summary.idOf counter
      rw [cpuPercent_prevIo] at rates
      rw [Option.bind_some, ← rates]
      cases counter <;> rfl

end Metrics

section Listings

variable (stats : String → Option StatsSample) (now : ℕ) {summaries : List ListedContainer}

/-- Containers of different ids are sampled independently: each map entry and each report
depends on what was remembered of its own container before the cycle.
Witness: induction on the listing; another id's entries are left alone.
-/
theorem buildAll_spec (distinct : (summaries.map ListedContainer.idOf).Nodup)
    (client : DockerClient)
    : (∀ id,
        (buildAll stats now client summaries).1.prevCpu[id]?
          = (if id ∈ summaries.map ListedContainer.idOf then
              (((stats id).bind cpuCounters).map Prod.snd).or client.prevCpu[id]?
            else client.prevCpu[id]?)
        ∧ (buildAll stats now client summaries).1.prevIo[id]?
          = if id ∈ summaries.map ListedContainer.idOf then
              ((stats id).map (ioCounters · now)).or client.prevIo[id]?
            else client.prevIo[id]?)
      ∧ (buildAll stats now client summaries).2.map ContainerMetrics.id
        = summaries.map ListedContainer.idOf
      ∧ ∀ m ∈ (buildAll stats now client summaries).2,
          ∃ s ∈ summaries,
            m.id = s.idOf
            ∧ m.cpuPercent = (client.buildMetrics s (stats s.idOf) now).2.cpuPercent
            ∧ ∀ counter,
                m.ioRate counter = (client.buildMetrics s (stats s.idOf) now).2.ioRate counter := by
  induction summaries generalizing client with
  | nil => simp [buildAll]
  | cons head rest ih =>
      obtain ⟨fresh, distinctRest⟩ := List.nodup_cons.mp distinct
      obtain ⟨entries, ids, reports⟩ :=
        ih distinctRest (client.buildMetrics head (stats head.idOf) now).1
      refine ⟨?_, ?_, ?_⟩
      · intro id
        obtain ⟨cpu, io⟩ := entries id
        rw [buildMetrics_prevCpu] at cpu
        rw [buildMetrics_prevIo] at io
        by_cases own : head.idOf = id
        · subst own
          rw [if_neg fresh, if_pos rfl] at cpu io
          have listed : head.idOf ∈ (head :: rest).map ListedContainer.idOf := List.mem_cons_self
          rw [if_pos listed, if_pos listed]
          exact ⟨cpu, io⟩
        · have same
              : id ∈ (head :: rest).map ListedContainer.idOf
                ↔ id ∈ rest.map ListedContainer.idOf := by
            rw [List.map_cons, List.mem_cons, or_iff_right (Ne.symm own)]
          rw [if_neg own] at cpu io
          simp only [same]
          exact ⟨cpu, io⟩
      · rw [List.map_cons, ← ids]
        simp [buildAll, buildMetrics_id]
      · intro m member
        rcases List.mem_cons.mp member with rfl | member
        · exact ⟨head, List.mem_cons_self, buildMetrics_id _ _ _ _, rfl, fun _ => rfl⟩
        · obtain ⟨s, inRest, id, cpu, io⟩ := reports m member
          have apart : head.idOf ≠ s.idOf := fun same => fresh (same ▸ List.mem_map_of_mem inRest)
          refine ⟨s, List.mem_cons_of_mem head inRest, id, ?_, ?_⟩
          · rw [cpu, buildMetrics_cpuPercent, buildMetrics_prevCpu, if_neg apart,
              ← buildMetrics_cpuPercent]
          · intro counter
            rw [io, buildMetrics_ioRate, buildMetrics_prevIo, if_neg apart, ← buildMetrics_ioRate]

end Listings

end DockerClient

section Runs

variable {cycle : CollectCycle} {client next : DockerClient} {out : List ContainerMetrics}

theorem lists_idOf (ids : cycle.DistinctIds) {s : ListedContainer} (member : s ∈ cycle.summaries)
    : cycle.lists s.idOf = true := by
  obtain ⟨own, found⟩ := Option.isSome_iff_exists.mp (ids.each s member)
  apply List.contains_iff_mem.mpr
  refine List.mem_map.mpr ⟨own, List.mem_filterMap.mpr ⟨s, member, found⟩, ?_⟩
  rw [ListedContainer.idOf, found, Option.getD_some]

/-- Only listed containers are sampled, for stats are only fetched of listed ones that run. -/
theorem lists_of_sampled (ids : cycle.DistinctIds) {id : String}
    (sampled : (cycle.sampleOf id).isSome)
    : cycle.lists id = true := by
  simp only [CollectCycle.sampleOf, DockerClient.fetchedStats] at sampled
  split at sampled
  next running =>
    obtain ⟨s, isRunning, rfl⟩ := List.mem_map.mp (List.contains_iff_mem.mp running)
    exact lists_idOf ids (List.mem_filter.mp isRunning).1
  next => cases sampled

theorem sampleOf_eq_none {id : String} (absent : id ∉ cycle.summaries.map ListedContainer.idOf)
    : cycle.sampleOf id = none := by
  simp only [CollectCycle.sampleOf, DockerClient.fetchedStats]
  rw [if_neg]
  intro running
  obtain ⟨s, isRunning, same⟩ := List.mem_map.mp (List.contains_iff_mem.mp running)
  exact absent (same ▸ List.mem_map_of_mem (List.mem_filter.mp isRunning).1)

/-- A cycle forgets the containers it does not list. -/
theorem reap_entries (client : DockerClient) (cycle : CollectCycle) (id : String)
    : (client.reap cycle.summaries).prevCpu[id]?
        = (if cycle.lists id then client.prevCpu[id]? else none)
      ∧ (client.reap cycle.summaries).prevIo[id]?
        = if cycle.lists id then client.prevIo[id]? else none :=
  ⟨KeyedFolds.getElem?_filter_keys _ _ id, KeyedFolds.getElem?_filter_keys _ _ id⟩

/-- A cycle makes another observation of every container: reaping forgets those that are not
listed, and building the metrics takes a sample of those that are.
-/
theorem collect_remembers (ids : cycle.DistinctIds)
    (collected : client.collect (.ok cycle.summaries) cycle.fetchStats cycle.now = (next, .ok out))
    (id : String)
    : next.prevCpu[id]? = remember client.prevCpu[id]? (cycle.cpuObservation id)
      ∧ next.prevIo[id]? = remember client.prevIo[id]? (cycle.ioObservation id) := by
  obtain ⟨rfl, _⟩ := Prod.mk.inj collected
  obtain ⟨cpu, io⟩ :=
    (DockerClient.buildAll_spec cycle.sampleOf cycle.now ids.distinct
      (client.reap cycle.summaries)).1 id
  obtain ⟨reapedCpu, reapedIo⟩ := reap_entries client cycle id
  rw [reapedCpu] at cpu
  rw [reapedIo] at io
  by_cases listed : id ∈ cycle.summaries.map ListedContainer.idOf
  · rw [if_pos listed] at cpu io
    exact ⟨cpu, io⟩
  · rw [if_neg listed] at cpu io
    have unsampled := sampleOf_eq_none listed
    constructor
    · rw [remember, CollectCycle.cpuObservation, unsampled]
      exact cpu
    · rw [remember, CollectCycle.ioObservation, unsampled]
      exact io

/-- Each report of a cycle is made from the samples of its own container, as ids are distinct and
reaping leaves listed ones alone.
-/
theorem collect_reports (ids : cycle.DistinctIds)
    (collected : client.collect (.ok cycle.summaries) cycle.fetchStats cycle.now = (next, .ok out))
    {m : ContainerMetrics} (member : m ∈ out)
    : cycle.lists m.id = true
      ∧ m.cpuPercent
        = ((cycle.sampleOf m.id).bind DockerClient.cpuCounters).bind
            (fun (cpuStats, counters) =>
              client.prevCpu[m.id]?.map (fun prev =>
                cpuPercentFromDeltas prev counters.totalUsage counters.systemUsage
                  (onlineCpus cpuStats)))
      ∧ ∀ counter,
          m.ioRate counter
            = (cycle.sampleOf m.id).bind (fun sample =>
                client.prevIo[m.id]?.bind (fun prev =>
                  if prev.readAt < cycle.now then
                    rate ((DockerClient.ioCounters sample cycle.now).counter counter)
                      (prev.counter counter) (((cycle.now - prev.readAt : ℕ) : ℚ) / 10 ^ 9)
                  else none)) := by
  obtain ⟨_, same⟩ := Prod.mk.inj collected
  obtain rfl := Except.ok.inj same
  obtain ⟨s, inListing, id, cpu, io⟩ :=
    (DockerClient.buildAll_spec cycle.sampleOf cycle.now ids.distinct
      (client.reap cycle.summaries)).2.2 m member
  have listed := lists_idOf ids inListing
  obtain ⟨reapedCpu, reapedIo⟩ := reap_entries client cycle s.idOf
  rw [if_pos listed] at reapedCpu reapedIo
  rw [id]
  refine ⟨listed, ?_, ?_⟩
  · rw [cpu, DockerClient.buildMetrics_cpuPercent, reapedCpu]
  · intro counter
    rw [io, DockerClient.buildMetrics_ioRate, reapedIo]

variable {cycles : List CollectCycle} {reports : List (List ContainerMetrics)}

theorem cpu_taken (ids : cycle.DistinctIds) (id : String)
    (sampled : (cycle.cpuObservation id).sample.isSome)
    : (cycle.cpuObservation id).present = true := by
  apply lists_of_sampled ids
  rw [CollectCycle.cpuObservation, Option.isSome_map] at sampled
  exact Option.isSome_of_isSome_bind sampled

theorem io_taken (ids : cycle.DistinctIds) (id : String)
    (sampled : (cycle.ioObservation id).sample.isSome)
    : (cycle.ioObservation id).present = true := by
  apply lists_of_sampled ids
  rwa [CollectCycle.ioObservation, Option.isSome_map] at sampled

/-- Both maps remember the observations of a run, by induction on its cycles. -/
theorem Collects.remembers (run : Collects cycles reports client)
    (ids : ∀ c ∈ cycles, c.DistinctIds) (id : String)
    : client.prevCpu[id]? = remembered (cycles.map (CollectCycle.cpuObservation id))
      ∧ client.prevIo[id]? = remembered (cycles.map (CollectCycle.ioObservation id)) := by
  induction run with
  | start => exact ⟨rfl, rfl⟩
  | cycle earlier c collected ih =>
      obtain ⟨cpu, io⟩ := ih (fun other member => ids other (List.mem_append_left _ member))
      obtain ⟨nextCpu, nextIo⟩ := collect_remembers (ids c (by simp)) collected id
      rw [List.map_append, List.map_append, List.map_singleton, List.map_singleton,
        remembered_concat, remembered_concat]
      exact ⟨cpu ▸ nextCpu, io ▸ nextIo⟩

theorem Collects.length_eq (run : Collects cycles reports client)
    : reports.length = cycles.length := by
  induction run with
  | start => rfl
  | cycle _ _ _ ih => rw [List.length_append, List.length_append, ih]; rfl

/-- Every report is collected by the client that the cycles before it leave behind, by induction
on the run.
-/
theorem Collects.before (run : Collects cycles reports client) {k : ℕ}
    (reported : reports[k]? = some out) (atK : cycles[k]? = some cycle)
    : ∃ earlier next,
        Collects (cycles.take k) (reports.take k) earlier
        ∧ earlier.collect (.ok cycle.summaries) cycle.fetchStats cycle.now = (next, .ok out) := by
  induction run with
  | start => cases atK
  | @cycle cycles reports client next out earlier c collected ih =>
      have within := (List.getElem?_eq_some_iff.mp atK).1
      rw [List.length_append, List.length_singleton] at within
      rcases Nat.lt_succ_iff_lt_or_eq.mp within with before | rfl
      · rw [List.getElem?_append_left before] at atK
        rw [List.getElem?_append_left (by rwa [earlier.length_eq])] at reported
        rw [List.take_append_of_le_length before.le,
          List.take_append_of_le_length (by rw [earlier.length_eq]; exact before.le)]
        exact ih reported atK
      · rw [List.getElem?_concat_length] at atK
        rw [← earlier.length_eq, List.getElem?_concat_length] at reported
        cases atK
        cases reported
        rw [List.take_left, ← earlier.length_eq, List.take_left]
        exact ⟨_, _, earlier, collected⟩

end Runs

/-- One container's metrics in the report of a cycle. -/
def Reported (cycles : List CollectCycle) (reports : List (List ContainerMetrics)) (k : ℕ)
    (cycle : CollectCycle) (m : ContainerMetrics)
    : Prop :=
  cycles[k]? = some cycle ∧ ∃ out, reports[k]? = some out ∧ m ∈ out

/-- Every listed container is reported once, with the rates that follow from the samples of
the cycle and the latest earlier ones of the container, listed ever since.
-/
structure RatesFollow (cycles : List CollectCycle) (reports : List (List ContainerMetrics))
    (client : DockerClient) : Prop where
  listed
    : List.Forall₂
        (fun cycle out =>
          out.map ContainerMetrics.id = cycle.summaries.map ListedContainer.idOf)
        cycles reports
  cpu_isSome_iff
    : ∀ k cycle m,
        Reported cycles reports k cycle m
        → (m.cpuPercent.isSome
          ↔ (cycle.cpuObservation m.id).sample.isSome
            ∧ ∃ j, SampledSince (cycles.map (CollectCycle.cpuObservation m.id)) j k)
  cpu_eq
    : ∀ k cycle m,
        Reported cycles reports k cycle m
        → ∀ j before,
            LatestSince (cycles.map (CollectCycle.cpuObservation m.id)) j k
            → cycles[j]? = some before
            → ∀ prev stats counters,
                (before.cpuObservation m.id).sample = some prev
                → (cycle.sampleOf m.id).bind DockerClient.cpuCounters = some (stats, counters)
                → m.cpuPercent
                  = some (cpuPercentFromDeltas prev counters.totalUsage counters.systemUsage
                      (onlineCpus stats))
  io_isSome_iff
    : ∀ k cycle m counter,
        Reported cycles reports k cycle m
        → ((m.ioRate counter).isSome
          ↔ ∃ j before prev current,
              LatestSince (cycles.map (CollectCycle.ioObservation m.id)) j k
              ∧ cycles[j]? = some before
              ∧ (before.ioObservation m.id).sample = some prev
              ∧ (cycle.ioObservation m.id).sample = some current
              ∧ (prev.counter counter).isSome
              ∧ (current.counter counter).isSome)
  io_eq
    : ∀ k cycle m counter,
        Reported cycles reports k cycle m
        → ∀ j before,
            LatestSince (cycles.map (CollectCycle.ioObservation m.id)) j k
            → cycles[j]? = some before
            → ∀ prev current earlier later,
                (before.ioObservation m.id).sample = some prev
                → (cycle.ioObservation m.id).sample = some current
                → prev.counter counter = some earlier
                → current.counter counter = some later
                → m.ioRate counter
                  = some (((later - earlier : ℕ) : ℚ)
                      / (((cycle.now - before.now : ℕ) : ℚ) / 10 ^ 9))
  remembered
    : ∀ id,
        client.prevCpu[id]?.isSome ∨ client.prevIo[id]?.isSome
        → ∃ last, cycles.getLast? = some last ∧ last.lists id = true

section Rates

variable {cycles : List CollectCycle} {reports : List (List ContainerMetrics)}
  {client : DockerClient}

/-- The client before the cycle of a report, and the report it makes. -/
theorem Reported.collected {k : ℕ} {cycle : CollectCycle} {m : ContainerMetrics}
    (reported : Reported cycles reports k cycle m) (run : Collects cycles reports client)
    : ∃ earlier next out,
        Collects (cycles.take k) (reports.take k) earlier
        ∧ earlier.collect (.ok cycle.summaries) cycle.fetchStats cycle.now = (next, .ok out)
        ∧ m ∈ out := by
  obtain ⟨there, out, atK, member⟩ := reported
  obtain ⟨earlier, next, before, collected⟩ := run.before atK there
  exact ⟨earlier, next, out, before, collected, member⟩

/-- What a report is made from: the samples of its cycle, and those remembered of the cycles
before it, by the client that collected it.
-/
theorem Reported.made_from {k : ℕ} {cycle : CollectCycle} {m : ContainerMetrics}
    (reported : Reported cycles reports k cycle m) (run : Collects cycles reports client)
    (ids : ∀ c ∈ cycles, c.DistinctIds)
    : cycle.lists m.id = true
      ∧ m.cpuPercent
        = ((cycle.sampleOf m.id).bind DockerClient.cpuCounters).bind (fun (stats, counters) =>
            (remembered ((cycles.map (CollectCycle.cpuObservation m.id)).take k)).map (fun prev =>
              cpuPercentFromDeltas prev counters.totalUsage counters.systemUsage
                (onlineCpus stats)))
      ∧ ∀ counter,
          m.ioRate counter
            = (cycle.sampleOf m.id).bind (fun sample =>
                (remembered ((cycles.map (CollectCycle.ioObservation m.id)).take k)).bind
                  (fun prev =>
                    if prev.readAt < cycle.now then
                      rate ((DockerClient.ioCounters sample cycle.now).counter counter)
                        (prev.counter counter) (((cycle.now - prev.readAt : ℕ) : ℚ) / 10 ^ 9)
                    else none)) := by
  obtain ⟨earlier, next, out, before, collected, member⟩ := reported.collected run
  obtain ⟨cpu, io⟩ :=
    before.remembers (fun c inTake => ids c (List.mem_of_mem_take inTake)) m.id
  rw [List.map_take] at cpu io
  rw [← cpu, ← io]
  exact collect_reports (ids cycle (List.mem_of_getElem? reported.1)) collected member

/-- Every cycle reports its containers in the order of the listing, by induction on the run. -/
theorem Collects.listed (run : Collects cycles reports client)
    (ids : ∀ c ∈ cycles, c.DistinctIds)
    : List.Forall₂
        (fun cycle out => out.map ContainerMetrics.id = cycle.summaries.map ListedContainer.idOf)
        cycles reports := by
  induction run with
  | start => exact .nil
  | @cycle _ _ client _ _ _ c collected ih =>
      apply List.rel_append (ih (fun other member => ids other (List.mem_append_left _ member)))
      refine .cons ?_ .nil
      obtain ⟨_, same⟩ := Prod.mk.inj collected
      rw [← Except.ok.inj same]
      exact (DockerClient.buildAll_spec c.sampleOf c.now (ids c (by simp)).distinct _).2.1

/-- Only listed containers are remembered, for the last cycle has reaped all others. -/
theorem Collects.remembered_listed (run : Collects cycles reports client)
    (ids : ∀ c ∈ cycles, c.DistinctIds) {id : String}
    (kept : client.prevCpu[id]?.isSome ∨ client.prevIo[id]?.isSome)
    : ∃ last, cycles.getLast? = some last ∧ last.lists id = true := by
  cases run with
  | start => simp [DockerClient.connected] at kept
  | cycle earlier c collected =>
      have own := ids c (by simp)
      obtain ⟨cpu, io⟩ := collect_remembers own collected id
      refine ⟨c, List.getLast?_concat, ?_⟩
      rw [cpu, io] at kept
      rcases kept with kept | kept
      · exact present_of_isSome_remember (cpu_taken own id) kept
      · exact present_of_isSome_remember (io_taken own id) kept

/-- With a sample in the cycle and an earlier one, rates are taken from the two.
Witness: the clock has advanced since the earlier sample was taken.
-/
theorem Reported.ioRate_eq {k j : ℕ} {cycle before : CollectCycle} {m : ContainerMetrics}
    {prev current : PrevIo} (reported : Reported cycles reports k cycle m)
    (run : Collects cycles reports client) (ids : ∀ c ∈ cycles, c.DistinctIds)
    (clock : cycles.Pairwise (fun earlier later => earlier.now < later.now))
    (latest : LatestSince (cycles.map (CollectCycle.ioObservation m.id)) j k)
    (atJ : cycles[j]? = some before) (sampled : (before.ioObservation m.id).sample = some prev)
    (sampledNow : (cycle.ioObservation m.id).sample = some current) (counter : IoCounter)
    : m.ioRate counter
      = rate (current.counter counter) (prev.counter counter)
          (((cycle.now - before.now : ℕ) : ℚ) / 10 ^ 9) := by
  obtain ⟨listed, _, io⟩ := reported.made_from run ids
  have taken : ∀ c ∈ cycles, _ := fun c member => io_taken (ids c member) m.id
  have kept := (remembered_map_take_iff taken reported.1 listed prev).mpr
    ⟨j, before, latest, atJ, sampled⟩
  obtain ⟨stats, fetched, rfl⟩ := Option.map_eq_some_iff.mp sampledNow
  obtain ⟨_, _, rfl⟩ := Option.map_eq_some_iff.mp sampled
  have advanced : before.now < cycle.now := by
    obtain ⟨withinJ, rfl⟩ := List.getElem?_eq_some_iff.mp atJ
    obtain ⟨withinK, rfl⟩ := List.getElem?_eq_some_iff.mp reported.1
    exact List.pairwise_iff_getElem.mp clock j k withinJ withinK latest.1.earlier
  rw [io, fetched, kept, Option.bind_some, Option.bind_some]
  exact if_pos advanced

theorem isSome_rate_iff {now prev : Option ℕ} {secs : ℚ}
    : (rate now prev secs).isSome ↔ prev.isSome ∧ now.isSome := by
  cases now <;> cases prev <;> simp [rate]

/-- The rates of every run follow from its samples.
Witness: the maps remember the latest samples of the cycles before.
-/
theorem rates_follow (run : Collects cycles reports client) (ids : ∀ c ∈ cycles, c.DistinctIds)
    (clock : cycles.Pairwise (fun earlier later => earlier.now < later.now))
    : RatesFollow cycles reports client where
  listed := run.listed ids
  cpu_isSome_iff k cycle m reported := by
    obtain ⟨listed, cpu, _⟩ := reported.made_from run ids
    have taken : ∀ c ∈ cycles, _ := fun c member => cpu_taken (ids c member) m.id
    rw [cpu, ← isSome_remembered_map_take_iff taken reported.1 listed,
      CollectCycle.cpuObservation, Option.isSome_map]
    cases (cycle.sampleOf m.id).bind DockerClient.cpuCounters <;> simp
  cpu_eq k cycle m reported j before latest atJ prev stats counters sampled complete := by
    obtain ⟨listed, cpu, _⟩ := reported.made_from run ids
    have taken : ∀ c ∈ cycles, _ := fun c member => cpu_taken (ids c member) m.id
    have kept := (remembered_map_take_iff taken reported.1 listed prev).mpr
      ⟨j, before, latest, atJ, sampled⟩
    rw [cpu, complete, kept]
    rfl
  io_isSome_iff k cycle m counter reported := by
    constructor
    · intro present
      obtain ⟨listed, _, io⟩ := reported.made_from run ids
      have taken : ∀ c ∈ cycles, _ := fun c member => io_taken (ids c member) m.id
      obtain ⟨_, isRate⟩ := Option.isSome_iff_exists.mp present
      rw [io, Option.bind_eq_some_iff] at isRate
      obtain ⟨stats, fetched, isRate⟩ := isRate
      obtain ⟨prev, kept, _⟩ := Option.bind_eq_some_iff.mp isRate
      obtain ⟨j, before, latest, atJ, sampled⟩ :=
        (remembered_map_take_iff taken reported.1 listed prev).mp kept
      have sampledNow
          : (cycle.ioObservation m.id).sample = some (DockerClient.ioCounters stats cycle.now) :=
        congrArg (Option.map _) fetched
      rw [reported.ioRate_eq run ids clock latest atJ sampled sampledNow, isSome_rate_iff]
        at present
      exact ⟨j, before, prev, _, latest, atJ, sampled, sampledNow, present⟩
    · intro h
      obtain ⟨j, before, prev, current, latest, atJ, sampled, sampledNow, both⟩ := h
      rw [reported.ioRate_eq run ids clock latest atJ sampled sampledNow]
      exact isSome_rate_iff.mpr both
  io_eq k cycle m counter reported j before latest atJ prev current earlier later sampled
      sampledNow atEarlier atLater := by
    rw [reported.ioRate_eq run ids clock latest atJ sampled sampledNow, atEarlier, atLater]
    rfl
  remembered _ kept := run.remembered_listed ids kept

section TwoCycles

/-- A running container whose CPU and network counters are read at a time. -/
def busyCycle (total system received now : ℕ) : CollectCycle where
  summaries :=
    [{ id := some "web".toList, labels := none, names := some ["/web".toList], image := none,
       state := some .running, status := none, ports := none }]
  fetchStats _ :=
    some {
      cpuStats :=
        some {
          cpuUsage := some { totalUsage := some total, percpuUsage := none }
          systemCpuUsage := some system
          onlineCpus := some 2
        }
      memoryStats := none
      networks := some [("eth0".toList, { rxBytes := some received, txBytes := none })]
      blkioStats := none
    }
  now := now

theorem busyCycle_distinct (total system received now : ℕ)
    : (busyCycle total system received now).DistinctIds where
  each _ member := by
    obtain rfl := List.mem_singleton.mp member
    rfl
  distinct := List.nodup_singleton _

/-- A sample of the first of two cycles is the latest one before the second, as there is no
other.
-/
theorem latestSince_twice {α : Type} {earlier later : Observation α}
    (sampled : earlier.sample.isSome = true) (before : earlier.present = true)
    (still : later.present = true)
    : LatestSince [earlier, later] 0 1 := by
  refine ⟨⟨Nat.zero_lt_one, ⟨earlier, rfl, sampled⟩, fun i o _ upTo atI => ?_⟩,
    fun i since => Nat.le_of_lt_succ since.earlier⟩
  interval_cases i
  · cases atI
    exact before
  · cases atI
    exact still

/-- A container is sampled twice, a second apart: its CPU and its network have a rate then. -/
theorem rates_follow_twice
    : ∃ reports client m,
        RatesFollow [busyCycle 100 1000 5 0, busyCycle 150 1100 25 (10 ^ 9)] reports client
        ∧ Reported [busyCycle 100 1000 5 0, busyCycle 150 1100 25 (10 ^ 9)] reports 1
            (busyCycle 150 1100 25 (10 ^ 9)) m
        ∧ m.cpuPercent = some 100
        ∧ m.netRxBps = some 20 := by
  obtain ⟨reports, client, follows⟩
      : ∃ reports client,
          RatesFollow [busyCycle 100 1000 5 0, busyCycle 150 1100 25 (10 ^ 9)] reports client := by
    refine ⟨_, _, rates_follow (.cycle (.cycle .start (busyCycle 100 1000 5 0) rfl)
      (busyCycle 150 1100 25 (10 ^ 9)) rfl) ?_ ?_⟩
    · intro c member
      rcases List.mem_cons.mp member with rfl | member
      · exact busyCycle_distinct 100 1000 5 0
      · obtain rfl := List.mem_singleton.mp member
        exact busyCycle_distinct 150 1100 25 (10 ^ 9)
    · exact List.pairwise_pair.mpr (by decide)
  obtain ⟨first, _, _, others, rfl⟩ := List.forall₂_cons_left_iff.mp follows.listed
  obtain ⟨out, rest, ids, _, rfl⟩ := List.forall₂_cons_left_iff.mp others
  obtain ⟨m, rfl, isWeb⟩ := List.map_eq_singleton_iff.mp ids
  have reported
      : Reported [busyCycle 100 1000 5 0, busyCycle 150 1100 25 (10 ^ 9)] (first :: [m] :: rest) 1
          (busyCycle 150 1100 25 (10 ^ 9)) m :=
    ⟨rfl, [m], rfl, List.mem_singleton_self m⟩
  have cpu := follows.cpu_eq 1 _ m reported 0 (busyCycle 100 1000 5 0)
  have io := follows.io_eq 1 _ m .netRx reported 0 (busyCycle 100 1000 5 0)
  rw [isWeb] at cpu io
  refine ⟨_, client, m, follows, reported, ?_, ?_⟩
  · refine (cpu (latestSince_twice rfl rfl rfl) rfl _ _ _ rfl rfl).trans ?_
    norm_num [cpuPercentFromDeltas, onlineCpus, Option.filter]
  · refine (io (latestSince_twice rfl rfl rfl) rfl _ _ _ _ rfl rfl rfl rfl).trans ?_
    norm_num [busyCycle, saturatingAddU64, u64Max]

end TwoCycles

end Rates

end DockDoe
