import DockDoe.Correctness.TrendWrites

/-! The envelopes of a pivoted row: extremes, sample totals and weighted medians of the
rollups that one batch merges under one key and metric.
-/

namespace DockDoe

open Nullable

/-- The envelope that rollups of one key and metric are merged into. -/
def Envelope.ofRollups : List ContainerTrend → Option Envelope
  | [] => none
  | first :: rest =>
      some (rest.foldl (fun envelope t => envelope.merge t.envelope) first.envelope)

/-- The number of samples behind some rollups. -/
def totalSamples (rollups : List ContainerTrend) : ℕ :=
  (rollups.map ContainerTrend.samples).sum

/-- The sample-weighted mean of the rollups' medians. -/
def weightedMedian (rollups : List ContainerTrend) : ℚ :=
  WeightedMeans.mean ContainerTrend.median (fun t => (t.samples : ℚ)) rollups

theorem Envelope.ofRollups_concat (rollups : List ContainerTrend) (t : ContainerTrend)
    : ofRollups (rollups ++ [t])
      = some (match ofRollups rollups with
          | none => t.envelope
          | some envelope => envelope.merge t.envelope) := by
  cases rollups with
  | nil => rfl
  | cons first rest => simp [ofRollups, List.foldl_append]

theorem ofMetric_append (metric : Metric) (left right : List KnownTrend)
    : ofMetric metric (left ++ right) = ofMetric metric left ++ ofMetric metric right := by
  simp [ofMetric]

theorem ofMetric_singleton (metric : Metric) (entry : KnownTrend)
    : ofMetric metric [entry] = if entry.2 = metric then [entry.1] else [] := by
  by_cases own : entry.2 = metric <;> simp [ofMetric, own]

theorem WideTrend.ofRollups_concat (rollups : List KnownTrend) (entry : KnownTrend)
    : ofRollups (rollups ++ [entry]) = (ofRollups rollups).absorb entry.1 entry.2 := by
  simp [ofRollups, List.foldl_append]

/-- Each metric's envelope is merged from that metric's rollups.
Witness: induction on the rollups; absorbing one touches its own metric only.
-/
theorem WideTrend.metrics_ofRollups (rollups : List KnownTrend) (metric : Metric)
    : (ofRollups rollups).metrics metric = Envelope.ofRollups (ofMetric metric rollups) := by
  induction rollups using List.reverseRecOn with
  | nil => rfl
  | append_singleton rollups entry ih =>
      rw [ofRollups_concat, ofMetric_append, ofMetric_singleton]
      by_cases own : entry.2 = metric
      · subst own
        rw [if_pos rfl, Envelope.ofRollups_concat, ← ih]
        exact Function.update_self _ _ _
      · rw [if_neg own, List.append_nil, ← ih]
        exact Function.update_of_ne (Ne.symm own) _ _

/-- The first stack that a rollup of a pivoted row carries is the row's. -/
theorem WideTrend.stack_ofRollups (rollups : List KnownTrend)
    : (ofRollups rollups).stack = rollups.findSome? (fun entry => entry.1.stack) := by
  induction rollups using List.reverseRecOn with
  | nil => rfl
  | append_singleton rollups entry ih =>
      rw [ofRollups_concat, absorb, List.findSome?_append, ← ih]
      cases own : entry.1.stack <;> simp [List.findSome?, own]

/-- A pivoted row takes its id and its bucket width from the last rollup. -/
theorem WideTrend.owner_ofRollups_concat (rollups : List KnownTrend) (entry : KnownTrend)
    : (ofRollups (rollups ++ [entry])).id = entry.1.id
      ∧ (ofRollups (rollups ++ [entry])).bucketSecs = entry.1.bucketSecs := by
  rw [ofRollups_concat]
  exact ⟨rfl, rfl⟩

/-- An envelope keeps the extremes of its rollups, by induction on them. -/
theorem Envelope.extremes_ofRollups (rollups : List ContainerTrend)
    : (ofRollups rollups).map Envelope.min = minAgg (rollups.map (fun t => some t.min))
      ∧ (ofRollups rollups).map Envelope.max = maxAgg (rollups.map (fun t => some t.max)) := by
  induction rollups using List.reverseRecOn with
  | nil => exact ⟨rfl, rfl⟩
  | append_singleton rollups t ih =>
      obtain ⟨least, greatest⟩ := ih
      rw [ofRollups_concat, List.map_append, List.map_append, minAgg_append, maxAgg_append,
        ← least, ← greatest]
      cases ofRollups rollups with
      | none => exact ⟨(leastOf_none_left _).symm, (greatestOf_none_left _).symm⟩
      | some envelope => exact ⟨rfl, rfl⟩

theorem Envelope.ofRollups_eq_none_iff {rollups : List ContainerTrend}
    : ofRollups rollups = none ↔ rollups = [] := by
  cases rollups <;> simp [ofRollups]

theorem totalSamples_append (left right : List ContainerTrend)
    : totalSamples (left ++ right) = totalSamples left + totalSamples right := by
  simp [totalSamples]

theorem totalSamples_singleton (t : ContainerTrend) : totalSamples [t] = t.samples := by
  simp [totalSamples]

theorem totalSamples_le_of_sublist {left right : List ContainerTrend} (part : left.Sublist right)
    : totalSamples left ≤ totalSamples right :=
  (part.map ContainerTrend.samples).sum_le_sum (fun _ _ => Nat.zero_le _)

/-- An envelope counts the samples of its rollups, as long as the count does not wrap, by
induction on them.
-/
theorem Envelope.samples_ofRollups {rollups : List ContainerTrend}
    (small : totalSamples rollups < 2 ^ 32) {envelope : Envelope}
    (merged : ofRollups rollups = some envelope)
    : envelope.samples = totalSamples rollups := by
  induction rollups using List.reverseRecOn generalizing envelope with
  | nil => cases merged
  | append_singleton rollups t ih =>
      rw [totalSamples_append] at small ⊢
      rw [ofRollups_concat, Option.some.injEq] at merged
      subst merged
      cases before : ofRollups rollups with
      | none =>
          rw [ofRollups_eq_none_iff.mp before, totalSamples_singleton]
          exact (Nat.zero_add _).symm
      | some previous =>
          rw [totalSamples_singleton] at small ⊢
          have own := ih (by omega) before
          simp only [merge, own, ContainerTrend.envelope]
          omega

theorem totalSamples_pos {rollups : List ContainerTrend} (nonempty : rollups ≠ [])
    (positive : ∀ t ∈ rollups, 1 ≤ t.samples)
    : 0 < totalSamples rollups := by
  obtain ⟨t, rest, rfl⟩ := List.exists_cons_of_ne_nil nonempty
  have := positive t List.mem_cons_self
  simp only [totalSamples, List.map_cons, List.sum_cons]
  omega

theorem sum_samples_cast (rollups : List ContainerTrend)
    : (rollups.map (fun t => (t.samples : ℚ))).sum = (totalSamples rollups : ℚ) := by
  simp [totalSamples, Function.comp_def]

theorem weightedMedian_singleton {t : ContainerTrend} (positive : 1 ≤ t.samples)
    : weightedMedian [t] = t.median := by
  refine WeightedMeans.mean_singleton ContainerTrend.median _ t ?_
  have nonzero : t.samples ≠ 0 := by omega
  exact_mod_cast nonzero

/-- Merging two weighted medians by their own totals gives that of all rollups, as weighted means
combine.
-/
theorem weightedMedian_append {left right : List ContainerTrend}
    (leftTotal : 0 < totalSamples left) (rightTotal : 0 < totalSamples right)
    : WeightedMeans.combine (weightedMedian left) (totalSamples left) (weightedMedian right)
          (totalSamples right)
        = weightedMedian (left ++ right) := by
  have leftNonzero : (totalSamples left : ℚ) ≠ 0 := by exact_mod_cast leftTotal.ne'
  have rightNonzero : (totalSamples right : ℚ) ≠ 0 := by exact_mod_cast rightTotal.ne'
  rw [← sum_samples_cast] at leftNonzero rightNonzero
  have combined := WeightedMeans.combine_mean ContainerTrend.median
    (fun t => (t.samples : ℚ)) left right leftNonzero rightNonzero
  rwa [sum_samples_cast, sum_samples_cast] at combined

/-- An envelope's median is the weighted mean of its rollups' medians.
Witness: merging one more rollup weighs the mean so far by its own total.
-/
theorem Envelope.median_ofRollups {rollups : List ContainerTrend}
    (positive : ∀ t ∈ rollups, 1 ≤ t.samples) (small : totalSamples rollups < 2 ^ 32)
    {envelope : Envelope} (merged : ofRollups rollups = some envelope)
    : envelope.median = weightedMedian rollups := by
  induction rollups using List.reverseRecOn generalizing envelope with
  | nil => cases merged
  | append_singleton rollups t ih =>
      have lastPositive := positive t (by simp)
      have lastTotal := totalSamples_singleton t
      have lastMedian := weightedMedian_singleton lastPositive
      have earlierPositive : ∀ other ∈ rollups, 1 ≤ other.samples :=
        fun other member => positive other (List.mem_append_left _ member)
      rw [totalSamples_append] at small
      rw [ofRollups_concat, Option.some.injEq] at merged
      subst merged
      cases before : ofRollups rollups with
      | none =>
          rw [ofRollups_eq_none_iff.mp before]
          exact lastMedian.symm
      | some previous =>
          have nonempty : rollups ≠ [] := by
            intro same
            subst same
            cases before
          have earlierTotal := totalSamples_pos nonempty earlierPositive
          have whole := weightedMedian_append earlierTotal (by omega : 0 < totalSamples [t])
          have median := ih earlierPositive (by omega) before
          have counted := samples_ofRollups (by omega) before
          have fits
              : (totalSamples rollups + t.samples) % 2 ^ 32 = totalSamples rollups + t.samples :=
            Nat.mod_eq_of_lt (by omega)
          rw [← whole, lastMedian, lastTotal, WeightedMeans.combine, ← Nat.cast_add, ← median]
          simp only [merge, counted, ContainerTrend.envelope, fits]
          rw [if_neg (by omega)]

/-- A pivoted row counts the samples of its best-covered metric.
Witness: absorbing a rollup only raises the count of its own metric, and the maximum with it.
-/
theorem WideTrend.samples_ofRollups {rollups : List KnownTrend}
    (small : ∀ metric, totalSamples (ofMetric metric rollups) < 2 ^ 32)
    : (ofRollups rollups).samples
      = Finset.univ.sup (fun metric => totalSamples (ofMetric metric rollups)) := by
  induction rollups using List.reverseRecOn with
  | nil => exact (Finset.sup_eq_bot_iff _ _).mpr (fun _ _ => rfl) |>.symm
  | append_singleton rollups entry ih =>
      have grows (metric : Metric)
          : totalSamples (ofMetric metric rollups)
            ≤ totalSamples (ofMetric metric (rollups ++ [entry])) := by
        rw [ofMetric_append, totalSamples_append]
        exact Nat.le_add_right _ _
      have before := ih (fun metric => (grows metric).trans_lt (small metric))
      obtain ⟨merged, own⟩
          : ∃ merged, (ofRollups (rollups ++ [entry])).metrics entry.2 = some merged := by
        rw [ofRollups_concat]
        exact ⟨_, Function.update_self _ _ _⟩
      have counted : merged.samples = totalSamples (ofMetric entry.2 (rollups ++ [entry])) := by
        rw [metrics_ofRollups] at own
        exact Envelope.samples_ofRollups (small entry.2) own
      have step
          : (ofRollups (rollups ++ [entry])).samples
            = max (ofRollups rollups).samples merged.samples := by
        rw [ofRollups_concat] at own ⊢
        simp only [absorb, Function.update_self, Option.some.injEq] at own
        simp only [absorb, own]
      rw [step, before, counted]
      refine le_antisymm (max_le ?_ ?_) (Finset.sup_le (fun metric _ => ?_))
      · exact Finset.sup_mono_fun (fun metric _ => grows metric)
      · exact Finset.le_sup (f := fun metric => totalSamples (ofMetric metric (rollups ++ [entry])))
          (Finset.mem_univ entry.2)
      · by_cases same : entry.2 = metric
        · exact same ▸ le_max_right _ _
        · have unchanged : ofMetric metric (rollups ++ [entry]) = ofMetric metric rollups := by
            rw [ofMetric_append, ofMetric_singleton, if_neg same, List.append_nil]
          rw [unchanged]
          exact (Finset.le_sup (f := fun metric => totalSamples (ofMetric metric rollups))
            (Finset.mem_univ metric)).trans (le_max_left _ _)

end DockDoe
