import DockDoe.Correctness.StoredExtremes
import DockDoe.Foundations.Transducers

/-! The two weights of a stored median. Within a batch a median is weighted by the samples of
its own metric; across batches both sides are weighted by the `samples` column of their rows,
which counts the best-covered metric.
-/

namespace DockDoe

open Nullable

/-- The number of samples of a write's best-covered metric. -/
def Write.bestCovered (write : Write) : ℕ :=
  Finset.univ.sup (fun metric => totalSamples (ofMetric metric write.rollups))

/-- The sample count of a row, zero where there is none. -/
def samplesOf (row : Option TrendRow) : ℤ :=
  row.elim 0 TrendRow.samples

/-- No metric of a write counts more samples than 32 bits hold. -/
def Write.Small (write : Write) : Prop :=
  ∀ metric, totalSamples (ofMetric metric write.rollups) < 2 ^ 32

theorem Write.samples_row {write : Write} (small : write.Small)
    : write.row.samples = write.bestCovered :=
  congrArg Nat.cast (WideTrend.samples_ofRollups small)

theorem samplesOf_upsert (row : Option TrendRow) (excluded : TrendRow)
    : samplesOf (some (TrendRow.upsert row excluded)) = samplesOf row + excluded.samples := by
  cases row with
  | none => exact (zero_add _).symm
  | some row => rfl

/-- The samples column adds up the best-covered counts of the writes. By induction on the writes
from the back.
-/
theorem samplesOf_rowAfter {writes : List Write} (start : Option TrendRow)
    (small : ∀ write ∈ writes, write.Small)
    : samplesOf (rowAfter start writes)
      = samplesOf start + (writes.map Write.bestCovered).sum := by
  induction writes using List.reverseRecOn with
  | nil => exact (add_zero _).symm
  | append_singleton writes write ih =>
      have earlier := ih (fun other member => small other (List.mem_append_left _ member))
      have own := Write.samples_row (small write (by simp))
      rw [rowAfter_append]
      change samplesOf (some (TrendRow.upsert (rowAfter start writes) write.row)) = _
      rw [samplesOf_upsert, earlier, own]
      simp [add_assoc]

/-- A metric's median column, NULL where there is no row. -/
def medOf (metric : Metric) (row : Option TrendRow) : Option ℚ :=
  row.bind (fun row => (row.columns metric).med)

/-- A write without the metric leaves its median alone, since its columns are null there. -/
theorem medOf_upsert_absent {metric : Metric} {write : Write} (row : Option TrendRow)
    (absent : ofMetric metric write.rollups = [])
    : medOf metric (some (TrendRow.upsert row write.row)) = medOf metric row := by
  have noColumns : write.row.columns metric = .ofEnvelope none := by
    rw [← Envelope.ofRollups_eq_none_iff.mpr absent, ← WideTrend.metrics_ofRollups]
    rfl
  cases row with
  | none =>
      change (write.row.columns metric).med = none
      rw [noColumns]
      rfl
  | some row =>
      change (EnvelopeColumns.upsert _ _ (row.columns metric) (write.row.columns metric)).med = _
      rw [noColumns]
      cases stored : (row.columns metric).med <;>
        simp [EnvelopeColumns.upsert, EnvelopeColumns.ofEnvelope, medOf, stored]

/-- A write with the metric stores the weighted median of its rollups, that is the envelope's. -/
theorem Write.med_row {write : Write} {metric : Metric} (small : write.Small)
    (positive : ∀ t ∈ ofMetric metric write.rollups, 1 ≤ t.samples)
    (present : ofMetric metric write.rollups ≠ [])
    : (write.row.columns metric).med
      = some (weightedMedian (ofMetric metric write.rollups)) := by
  obtain ⟨envelope, merged⟩ :=
    Option.ne_none_iff_exists'.mp (present ∘ Envelope.ofRollups_eq_none_iff.mp)
  have median := Envelope.median_ofRollups positive (small metric) merged
  change ((WideTrend.ofRollups write.rollups).metrics metric).map Envelope.median = _
  rw [WideTrend.metrics_ofRollups, merged, ← median]
  rfl

/-- The first write with the metric sets its median. -/
theorem medOf_upsert_first {metric : Metric} {row : Option TrendRow} (write : Write)
    (none : medOf metric row = none)
    : medOf metric (some (TrendRow.upsert row write.row)) = (write.row.columns metric).med := by
  cases row with
  | none => rfl
  | some row =>
      have stored : (row.columns metric).med = .none := none
      simp [medOf, TrendRow.upsert, EnvelopeColumns.upsert, stored]

/-- Every later write with the metric weighs both medians by the samples of the rows, whose sum
is not zero.
-/
theorem medOf_upsert_both {metric : Metric} {write : Write} {row : Option TrendRow}
    {left right : ℚ} (stored : medOf metric row = some left)
    (excluded : (write.row.columns metric).med = some right)
    (positive : 0 < samplesOf row + write.row.samples)
    : medOf metric (some (TrendRow.upsert row write.row))
      = some (WeightedMeans.combine left (samplesOf row) right write.row.samples) := by
  cases row with
  | none => cases stored
  | some row =>
      have own : (row.columns metric).med = some left := stored
      have nonzero : (row.samples : ℚ) + write.row.samples ≠ 0 := by
        exact_mod_cast positive.ne'
      simp [medOf, TrendRow.upsert, EnvelopeColumns.upsert, own, excluded, quotient, nonzero,
        samplesOf, WeightedMeans.combine]

/-- Writes without the metric leave it without a median. By induction on the writes from the
back.
-/
theorem medOf_rowAfter_eq_none {metric : Metric} {writes : List Write}
    (absent : metricRollups metric writes = [])
    : medOf metric (rowAfter none writes) = none := by
  induction writes using List.reverseRecOn with
  | nil => rfl
  | append_singleton writes write ih =>
      obtain ⟨earlier, own⟩ := List.append_eq_nil_iff.mp (metricRollups_concat .. ▸ absent)
      rw [rowAfter_append]
      exact (medOf_upsert_absent (rowAfter none writes) own).trans (ih earlier)

/-- The stored median is the sample-weighted mean of the rollups, if there are any. -/
def WeighsBySamples (row : Option TrendRow) (metric : Metric) (rollups : List ContainerTrend)
    : Prop :=
  rollups ≠ [] → medOf metric row = some (weightedMedian rollups)

theorem WeighsBySamples.perm {row : Option TrendRow} {metric : Metric}
    {left right : List ContainerTrend} (perm : left.Perm right)
    (weighs : WeighsBySamples row metric left)
    : WeighsBySamples row metric right := by
  intro present
  have same : weightedMedian left = weightedMedian right := WeightedMeans.mean_perm _ _ perm
  rw [← same]
  exact weighs (fun empty => present (empty ▸ perm).nil_eq.symm)

/-- A write does not skew a metric's median: it is the first with the metric or has none of
it, its median is the stored one, or the metric has the same share of the best-covered
counts on both sides.
-/
def FairlyWeighted (metric : Metric) (earlier : List Write) (write : Write) : Prop :=
  let before := metricRollups metric earlier
  let own := ofMetric metric write.rollups
  before = []
  ∨ own = []
  ∨ weightedMedian before = weightedMedian own
  ∨ (earlier.map Write.bestCovered).sum * totalSamples own
    = write.bestCovered * totalSamples before

/-- One more write keeps a median right exactly when it is fairly weighted.
Witness: both merges are weighted means of the same two medians.
-/
theorem weighsBySamples_concat_iff {metric : Metric} {earlier : List Write} {write : Write}
    (small : ∀ other ∈ earlier ++ [write], other.Small)
    (positive : ∀ t ∈ metricRollups metric (earlier ++ [write]), 1 ≤ t.samples)
    (right : WeighsBySamples (rowAfter none earlier) metric (metricRollups metric earlier))
    : WeighsBySamples (rowAfter none (earlier ++ [write])) metric
          (metricRollups metric (earlier ++ [write]))
        ↔ FairlyWeighted metric earlier write := by
  have ownSmall := small write (by simp)
  have next
      : rowAfter none (earlier ++ [write])
        = some (TrendRow.upsert (rowAfter none earlier) write.row) :=
    rowAfter_append none earlier [write]
  rw [metricRollups_concat] at positive ⊢
  by_cases ownAbsent : ofMetric metric write.rollups = []
  · rw [next, ownAbsent, List.append_nil]
    have same := medOf_upsert_absent (rowAfter none earlier) ownAbsent
    exact iff_of_true (fun nonempty => same.trans (right nonempty)) (.inr (.inl ownAbsent))
  have ownPositive : ∀ t ∈ ofMetric metric write.rollups, 1 ≤ t.samples :=
    fun t member => positive t (List.mem_append_right _ member)
  have excluded := Write.med_row ownSmall ownPositive ownAbsent
  by_cases absent : metricRollups metric earlier = []
  · rw [next, absent, List.nil_append]
    have first := medOf_upsert_first write (medOf_rowAfter_eq_none absent)
    exact iff_of_true (fun _ => first.trans excluded) (.inl absent)
  have ownTotal := totalSamples_pos ownAbsent ownPositive
  have total := totalSamples_pos absent (fun t member => positive t (List.mem_append_left _ member))
  have covered : totalSamples (ofMetric metric write.rollups) ≤ write.bestCovered :=
    Finset.le_sup (f := fun metric => totalSamples (ofMetric metric write.rollups))
      (Finset.mem_univ metric)
  have samples := samplesOf_rowAfter none (fun other member =>
    small other (List.mem_append_left _ member))
  have ownSamples := Write.samples_row ownSmall
  have stored := medOf_upsert_both (right absent) excluded (by
    rw [samples, ownSamples, samplesOf, Option.elim_none]
    omega)
  have wholePresent : metricRollups metric earlier ++ ofMetric metric write.rollups ≠ [] :=
    fun empty => absent (List.append_eq_nil_iff.mp empty).1
  have weights
      : ((earlier.map Write.bestCovered).sum : ℚ) + write.bestCovered ≠ 0 := by
    have positive : (earlier.map Write.bestCovered).sum + write.bestCovered ≠ 0 := by omega
    exact_mod_cast positive
  have totals
      : (totalSamples (metricRollups metric earlier) : ℚ)
          + totalSamples (ofMetric metric write.rollups)
        ≠ 0 := by
    have positive
        : totalSamples (metricRollups metric earlier)
            + totalSamples (ofMetric metric write.rollups)
          ≠ 0 := by
      omega
    exact_mod_cast positive
  rw [samples, ownSamples, samplesOf, Option.elim_none, zero_add, Int.cast_natCast,
    Int.cast_natCast] at stored
  rw [next, WeighsBySamples, stored, ← weightedMedian_append total ownTotal, Option.some.injEq,
    WeightedMeans.combine_eq_combine_iff weights totals]
  norm_cast
  simp only [FairlyWeighted, absent, ownAbsent, false_or, wholePresent, not_false_eq_true,
    true_imp_iff]

-----------------------------------------------------------------------------------------
-- Runs of batches
-----------------------------------------------------------------------------------------

theorem mem_metricRollups {metric : Metric} {writes : List Write} {t : ContainerTrend}
    : t ∈ metricRollups metric writes ↔ ∃ write ∈ writes, t ∈ ofMetric metric write.rollups := by
  simp only [metricRollups, ofMetric, List.filter_flatMap, List.map_flatMap, List.mem_flatMap]

/-- All rollups behind the writes to a key are among those that were stored. -/
theorem mem_flatten_of_mem_metricRollups {batches : List (List ContainerTrend)}
    {key : StoredKey} {metric : Metric} {t : ContainerTrend}
    (member : t ∈ metricRollups metric (writesTo key (batches.flatMap writesOf)))
    : t ∈ batches.flatten :=
  List.mem_of_mem_filter ((metricRollups_perm batches key metric).mem_iff.mp member)

theorem totalSamples_le_metricRollups {metric : Metric} {writes : List Write} {write : Write}
    (member : write ∈ writes)
    : totalSamples (ofMetric metric write.rollups)
      ≤ totalSamples (metricRollups metric writes) := by
  obtain ⟨left, right, rfl⟩ := List.append_of_mem member
  rw [metricRollups_append, metricRollups_cons, totalSamples_append, totalSamples_append]
  omega

/-- The writes to a key count no more samples than its rollups, of which each write's are a part. -/
theorem small_of_mem_writesTo {batches : List (List ContainerTrend)} {key : StoredKey}
    (small : ∀ metric, totalSamples (rollupsOf batches key metric) < 2 ^ 32) {write : Write}
    (member : write ∈ writesTo key (batches.flatMap writesOf))
    : write.Small := by
  intro metric
  have total := (metricRollups_perm batches key metric).map ContainerTrend.samples
  calc totalSamples (ofMetric metric write.rollups)
      ≤ totalSamples (metricRollups metric (writesTo key (batches.flatMap writesOf))) :=
        totalSamples_le_metricRollups member
    _ = totalSamples (rollupsOf batches key metric) := total.sum_eq
    _ < 2 ^ 32 := small metric

/-- Every insert into the row of a key is fairly weighted. -/
def FairlyMerged (batches : List (List ContainerTrend)) (key : StoredKey) (metric : Metric)
    : Prop :=
  ∀ done next,
    done ++ [next] <+: batches.flatMap writesOf →
    next.stored = key →
    FairlyWeighted metric (writesTo key done) next

/-- Along a run of inserts a stored median is right throughout exactly when every insert is
fairly weighted; then it is right after every batch. Witness: after a right median, the next
upsert is right exactly when its weights are those of the metric, by induction on the prefixes of
the run.
-/
theorem weighsBySamples_iff (batches : List (List ContainerTrend)) (key : StoredKey)
    (metric : Metric) (positive : ∀ t ∈ batches.flatten, 1 ≤ t.samples)
    (small : ∀ metric, totalSamples (rollupsOf batches key metric) < 2 ^ 32)
    : ((∀ done,
          done <+: batches.flatMap writesOf →
          WeighsBySamples ((TrendTable.written ∅ done)[key]?) metric
            (metricRollups metric (writesTo key done)))
        ↔ FairlyMerged batches key metric)
      ∧ (FairlyMerged batches key metric →
        ∀ n, ∃ store,
          Store.empty.insertBatches (batches.take n) = .ok store
          ∧ WeighsBySamples (store.containerTrend[key]?) metric
              (rollupsOf (batches.take n) key metric)) := by
  have row (done : List Write)
      : (TrendTable.written ∅ done)[key]? = rowAfter none (writesTo key done) := by
    rw [TrendTable.getElem?_written, Std.ExtTreeMap.getElem?_empty]
  have exact
      : (∀ done,
            done <+: batches.flatMap writesOf →
            WeighsBySamples ((TrendTable.written ∅ done)[key]?) metric
              (metricRollups metric (writesTo key done)))
          ↔ FairlyMerged batches key metric := by
    refine Transducer.forall_prefix_iff (fun absent => absurd rfl absent) ?_
    intro done next within right
    rw [row] at right ⊢
    have part := writesTo_initial key within
    rw [writesTo_concat] at part ⊢
    by_cases own : next.stored = key
    · rw [if_pos own] at part ⊢
      simp only [own, true_imp_iff]
      refine weighsBySamples_concat_iff ?_ ?_ right
      · exact fun other member => small_of_mem_writesTo small (part.subset member)
      · intro t member
        obtain ⟨write, inPart, ofWrite⟩ := mem_metricRollups.mp member
        have inAll := mem_metricRollups.mpr ⟨write, part.subset inPart, ofWrite⟩
        exact positive t (mem_flatten_of_mem_metricRollups inAll)
    · rw [if_neg own]
      exact iff_of_true right (fun same => absurd same own)
  refine ⟨exact, fun fair n => ⟨_, Store.insertBatches_eq .empty (batches.take n), ?_⟩⟩
  have initial : (batches.take n).flatMap writesOf <+: batches.flatMap writesOf := by
    refine ⟨(batches.drop n).flatMap writesOf, ?_⟩
    rw [← List.flatMap_append, List.take_append_drop]
  exact (exact.mpr fair _ initial).perm (metricRollups_perm (batches.take n) key metric)

/-- The first batch has twice as many memory samples as CPU samples. -/
def unevenBatches : List (List ContainerTrend) :=
  [[.level 0 .cpu 2 10, .level 0 .mem 100 20], [.level 0 .cpu 4 10]]

/-- Weighed by the rows' samples the CPU median is (2·20 + 4·10)/30; computed from the two
batches.
-/
theorem uneven_median_skewed
    : ∃ store row,
        Store.empty.insertBatches unevenBatches = .ok store
        ∧ store.containerTrend[firstKey]? = some row
        ∧ (row.columns .cpu).med = some (8 / 3)
        ∧ weightedMedian (rollupsOf unevenBatches firstKey .cpu) = 3 := by
  have computed
      : medOf .cpu ((TrendTable.written ∅ (unevenBatches.flatMap writesOf))[firstKey]?)
        = some (8 / 3) := by
    decide +kernel
  obtain ⟨row, found, med⟩ := Option.bind_eq_some_iff.mp computed
  exact ⟨_, row, Store.insertBatches_eq _ _, found, med, by decide +kernel⟩

/-- The uneven batches are no fair ones: the median of the second one comes out wrong. -/
theorem uneven_not_fairlyMerged : ¬ FairlyMerged unevenBatches firstKey .cpu := by
  intro fair
  obtain ⟨store, inserted, weighs⟩ :=
    (weighsBySamples_iff unevenBatches firstKey .cpu (by decide) (by decide +kernel)).2 fair 2
  rw [Store.insertBatches_eq] at inserted
  obtain rfl := Except.ok.inj inserted
  have right := weighs (by decide +kernel)
  revert right
  decide +kernel

end DockDoe
