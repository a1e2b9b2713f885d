import DockDoe.Correctness.PivotedEnvelopes

/-! What a batch is pivoted into: one row for every key, which sums up the rollups of that key
metric by metric, whatever the order in which they come.
-/

namespace DockDoe

open Nullable

/-- The rollups of a batch that share a row and a metric. -/
def rollupsAt (key : PivotKey) (metric : Metric) (trends : List ContainerTrend)
    : List ContainerTrend :=
  trends.filter (fun t => t.key = key ∧ t.metric = metric.asStr)

/-- The envelope has the rollups' extremes, the mean of their medians weighted by samples, and
the sum of their samples.
-/
structure Envelope.Summarizes (envelope : Envelope) (rollups : List ContainerTrend) : Prop where
  least : IsLeast {value | ∃ t ∈ rollups, t.min = value} envelope.min
  greatest : IsGreatest {value | ∃ t ∈ rollups, t.max = value} envelope.max
  median : envelope.median = weightedMedian rollups
  samples : envelope.samples = totalSamples rollups

/-- The row has an envelope for exactly those metrics that rollups of its key name; each sums
up its rollups, and the row's count is the largest of theirs.
-/
structure WideTrend.PivotOf (row : WideTrend) (key : PivotKey) (trends : List ContainerTrend)
    : Prop where
  absent : ∀ metric, row.metrics metric = none ↔ rollupsAt key metric trends = []
  summarized
    : ∀ metric, ∀ envelope ∈ row.metrics metric,
        envelope.Summarizes (rollupsAt key metric trends)
  samples
    : row.samples = Finset.univ.sup (fun metric => totalSamples (rollupsAt key metric trends))

/-- What a row says about its metrics, apart from whom it is attributed to. -/
def WideTrend.figures (row : WideTrend) : (Metric → Option Envelope) × ℕ :=
  (row.metrics, row.samples)

theorem weightedMedian_perm {left right : List ContainerTrend} (perm : left.Perm right)
    : weightedMedian left = weightedMedian right :=
  WeightedMeans.mean_perm _ _ perm

theorem totalSamples_perm {left right : List ContainerTrend} (perm : left.Perm right)
    : totalSamples left = totalSamples right :=
  (perm.map ContainerTrend.samples).sum_eq

/-- Merging rollups of one key and metric sums them up: the extremes and the median are those of
the three folds, and the counts fit without saturation.
-/
theorem Envelope.summarizes_ofRollups {rollups : List ContainerTrend}
    (positive : ∀ t ∈ rollups, 1 ≤ t.samples) (small : totalSamples rollups < 2 ^ 32)
    {envelope : Envelope} (merged : ofRollups rollups = some envelope)
    : envelope.Summarizes rollups := by
  obtain ⟨least, greatest⟩ := extremes_ofRollups rollups
  rw [merged, Option.map_some, eq_comm, minAgg_eq_some_iff] at least
  rw [merged, Option.map_some, eq_comm, maxAgg_eq_some_iff] at greatest
  simp only [List.mem_map, Option.some.injEq] at least greatest
  refine ⟨⟨least.1, ?_⟩, ⟨greatest.1, ?_⟩, median_ofRollups positive small merged,
    samples_ofRollups small merged⟩
  · intro value own
    exact least.2 value own
  · intro value own
    exact greatest.2 value own

/-- Envelopes that sum up the same rollups, in whatever order, are the same, field by field:
least and greatest elements are unique, and sums do not see the order.
-/
theorem Envelope.Summarizes.unique {left right : List ContainerTrend} {envelope other : Envelope}
    (own : envelope.Summarizes left) (otherOwn : other.Summarizes right)
    (perm : left.Perm right)
    : envelope = other := by
  have sameLeast := otherOwn.least
  have sameGreatest := otherOwn.greatest
  simp only [← perm.mem_iff] at sameLeast sameGreatest
  rcases envelope with ⟨least, median, greatest, samples⟩
  rcases other with ⟨least', median', greatest', samples'⟩
  obtain rfl : least = least' := own.least.unique sameLeast
  obtain rfl : greatest = greatest' := own.greatest.unique sameGreatest
  obtain rfl : median = median' :=
    own.median.trans ((weightedMedian_perm perm).trans otherOwn.median.symm)
  obtain rfl : samples = samples' :=
    own.samples.trans ((totalSamples_perm perm).trans otherOwn.samples.symm)
  rfl

/-- The known rollups of a batch that share a row. -/
def knownUnder (key : PivotKey) (trends : List ContainerTrend) : List KnownTrend :=
  KeyedFolds.under (fun entry : KnownTrend => entry.1.key) key
    (trends.filterMap ContainerTrend.known?)

/-- A key is found with the row of its known rollups, if it has any. The map's entries are the
writes of the batch.
-/
theorem getElem?_pivotTrends {trends : List ContainerTrend} {key : PivotKey} {row : WideTrend}
    : (pivotTrends trends)[key]? = some row
      ↔ knownUnder key trends ≠ [] ∧ row = .ofRollups (knownUnder key trends) := by
  rw [← KeyedFolds.mem_toList_iff, pivotTrends_toList, List.mem_map]
  constructor
  · intro h
    obtain ⟨write, member, same⟩ := h
    obtain ⟨nonempty, rollups⟩ := mem_writesOf.mp member
    obtain ⟨rfl, rfl⟩ := Prod.mk.inj same
    rw [rollups] at nonempty
    exact ⟨nonempty, congrArg WideTrend.ofRollups rollups⟩
  · intro h
    obtain ⟨nonempty, same⟩ := h
    exact ⟨⟨key, knownUnder key trends⟩, mem_writesOf.mpr ⟨nonempty, rfl⟩, by rw [same]⟩

/-- A row is pivoted for every key of a rollup of a known metric, which is what it means that the
key's known rollups are not empty.
-/
theorem isSome_pivotTrends {trends : List ContainerTrend} {key : PivotKey}
    : ((pivotTrends trends)[key]?).isSome
      ↔ ∃ t ∈ trends, t.key = key ∧ (Metric.ofStr? t.metric).isSome := by
  have present : ((pivotTrends trends)[key]?).isSome ↔ knownUnder key trends ≠ [] := by
    rw [Option.isSome_iff_exists]
    simp only [getElem?_pivotTrends, exists_and_left, exists_eq, and_true]
  rw [present, Ne, List.eq_nil_iff_forall_not_mem]
  push Not
  constructor
  · intro h
    obtain ⟨entry, inUnder⟩ := h
    obtain ⟨known, own⟩ := KeyedFolds.mem_under_iff.mp inUnder
    obtain ⟨t, member, found⟩ := List.mem_filterMap.mp known
    obtain ⟨slot, named, rfl⟩ := Option.map_eq_some_iff.mp found
    exact ⟨t, member, own, Option.isSome_iff_exists.mpr ⟨slot, named⟩⟩
  · intro h
    obtain ⟨t, member, own, isKnown⟩ := h
    obtain ⟨slot, named⟩ := Option.isSome_iff_exists.mp isKnown
    refine ⟨(t, slot), KeyedFolds.mem_under_iff.mpr ⟨?_, own⟩⟩
    exact List.mem_filterMap.mpr ⟨t, member, by rw [ContainerTrend.known?, named, Option.map_some]⟩

section Batch

variable {trends : List ContainerTrend} (positive : ∀ t ∈ trends, 1 ≤ t.samples)
  (small : totalSamples trends < 2 ^ 32)

theorem totalSamples_rollupsAt_le (key : PivotKey) (metric : Metric)
    (trends : List ContainerTrend)
    : totalSamples (rollupsAt key metric trends) ≤ totalSamples trends :=
  totalSamples_le_of_sublist List.filter_sublist

include positive small

/-- Every pivoted row sums up its rollups: each metric by `Envelope.summarizes_ofRollups`, whose
counts fit because those of the batch do.
-/
theorem pivotOf_pivotTrends {key : PivotKey} {row : WideTrend}
    (found : (pivotTrends trends)[key]? = some row)
    : row.PivotOf key trends := by
  obtain ⟨_, rfl⟩ := getElem?_pivotTrends.mp found
  have own (metric : Metric)
      : ofMetric metric (knownUnder key trends) = rollupsAt key metric trends :=
    ofMetric_under key metric trends
  have fits (metric : Metric) : totalSamples (rollupsAt key metric trends) < 2 ^ 32 :=
    (totalSamples_rollupsAt_le key metric trends).trans_lt small
  refine ⟨fun metric => ?_, fun metric envelope merged => ?_, ?_⟩
  · rw [WideTrend.metrics_ofRollups, own, Envelope.ofRollups_eq_none_iff]
  · rw [WideTrend.metrics_ofRollups, own] at merged
    exact Envelope.summarizes_ofRollups
      (fun t member => positive t (List.mem_of_mem_filter member)) (fits metric) merged
  · rw [WideTrend.samples_ofRollups (fun metric => by rw [own]; exact fits metric)]
    exact congrArg Finset.univ.sup (funext (fun metric => congrArg totalSamples (own metric)))

/-- The order of a batch matters neither for its keys nor for what its rows say: both rows sum up
the same rollups, and such envelopes are unique.
-/
theorem figures_pivotTrends_perm {other : List ContainerTrend} (perm : other.Perm trends)
    (key : PivotKey)
    : ((pivotTrends other)[key]?).map WideTrend.figures
      = ((pivotTrends trends)[key]?).map WideTrend.figures := by
  have otherPositive : ∀ t ∈ other, 1 ≤ t.samples :=
    fun t member => positive t (perm.mem_iff.mp member)
  have otherSmall : totalSamples other < 2 ^ 32 := by rwa [totalSamples_perm perm]
  have samePresence
      : ((pivotTrends other)[key]?).isSome = ((pivotTrends trends)[key]?).isSome := by
    rw [Bool.eq_iff_iff, isSome_pivotTrends, isSome_pivotTrends]
    simp only [perm.mem_iff]
  have samePart (metric : Metric)
      : (rollupsAt key metric other).Perm (rollupsAt key metric trends) :=
    perm.filter _
  cases left : (pivotTrends other)[key]? with
  | none =>
      rw [left, Option.isSome_none, eq_comm, Option.isSome_eq_false_iff, Option.isNone_iff_eq_none]
        at samePresence
      rw [samePresence]
  | some row =>
      rw [left, Option.isSome_some, eq_comm] at samePresence
      obtain ⟨row', right⟩ := Option.isSome_iff_exists.mp samePresence
      have own := pivotOf_pivotTrends otherPositive otherSmall left
      have own' := pivotOf_pivotTrends positive small right
      rw [right, Option.map_some, Option.map_some]
      refine congrArg some (Prod.ext (funext (fun metric => ?_)) ?_)
      · change row.metrics metric = row'.metrics metric
        have sameAbsence : row.metrics metric = none ↔ row'.metrics metric = none := by
          rw [own.absent, own'.absent]
          exact ⟨fun empty => List.nil_perm.mp (empty ▸ samePart metric),
            fun empty => List.perm_nil.mp (empty ▸ samePart metric)⟩
        cases slot : row.metrics metric with
        | none => exact (sameAbsence.mp slot).symm
        | some envelope =>
            have present : row'.metrics metric ≠ none := by
              rw [Ne, ← sameAbsence, slot]
              exact Option.some_ne_none envelope
            obtain ⟨envelope', slot'⟩ := Option.ne_none_iff_exists'.mp present
            rw [slot']
            exact congrArg some ((own.summarized metric envelope slot).unique
              (own'.summarized metric envelope' slot') (samePart metric))
      · change row.samples = row'.samples
        rw [own.samples, own'.samples]
        exact congrArg Finset.univ.sup
          (funext (fun metric => totalSamples_perm (samePart metric)))

/-- A batch is pivoted into one row for each key of a known rollup, which sums up the key's
rollups and depends on their order at most in whom it is attributed to. Witness: a row is a fold
over its key's rollups, whose columns are commutative sums and extremes.
-/
theorem pivotTrends_spec
    : (∀ key : PivotKey,
          ((pivotTrends trends)[key]?).isSome
          ↔ ∃ t ∈ trends, t.key = key ∧ (Metric.ofStr? t.metric).isSome)
      ∧ (∀ (key : PivotKey) (row : WideTrend),
          (pivotTrends trends)[key]? = some row → row.PivotOf key trends)
      ∧ ∀ other : List ContainerTrend, other.Perm trends → ∀ key : PivotKey,
          ((pivotTrends other)[key]?).map WideTrend.figures
          = ((pivotTrends trends)[key]?).map WideTrend.figures :=
  ⟨fun _ => isSome_pivotTrends, fun _ _ => pivotOf_pivotTrends positive small,
    fun _ perm key => figures_pivotTrends_perm positive small perm key⟩

end Batch

/-- Two incarnations of a name in one bucket, of which the second reports memory too. -/
private def recreatedTrends : List ContainerTrend :=
  let rollup (id metric : String) (median : ℚ) (samples : ℕ) : ContainerTrend :=
    {
      bucketStartMs := 60000, bucketSecs := 60, host := "local", id, name := "web", stack := none
      metric, min := median - 1, max := median + 1, median, samples
    }
  [rollup "a" "cpu" 2 5, rollup "b" "mem" 10 1, rollup "b" "cpu" 8 1]

theorem recreated_pivots
    : (∀ key : PivotKey,
          ((pivotTrends recreatedTrends)[key]?).isSome
          ↔ ∃ t ∈ recreatedTrends, t.key = key ∧ (Metric.ofStr? t.metric).isSome)
      ∧ (∀ (key : PivotKey) (row : WideTrend),
          (pivotTrends recreatedTrends)[key]? = some row → row.PivotOf key recreatedTrends)
      ∧ ∀ other : List ContainerTrend, other.Perm recreatedTrends → ∀ key : PivotKey,
          ((pivotTrends other)[key]?).map WideTrend.figures
          = ((pivotTrends recreatedTrends)[key]?).map WideTrend.figures := by
  refine pivotTrends_spec ?_ ?_
  · simp [recreatedTrends]
  · simp [recreatedTrends, totalSamples]

end DockDoe
