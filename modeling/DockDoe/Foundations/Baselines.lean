import Mathlib

/-! A value remembered from one observation to the next. An observation that samples
something replaces what is kept; one that samples nothing keeps it only while its subject is
still there.
-/

namespace Baselines

/-- Whether a subject is there, and what is sampled of it. -/
structure Observation (α : Type u) where
  present : Bool
  sample : Option α

variable {α : Type u} {history : List (Observation α)}

/-- What is kept after another observation. -/
def remember (kept : Option α) (o : Observation α) : Option α :=
  o.sample.or (if o.present then kept else none)

/-- What is kept after a history of observations. -/
def remembered (history : List (Observation α)) : Option α :=
  history.foldl remember none

/-- The latest sample of a history: nothing is sampled after it, with its subject there. -/
def LatestSample (history : List (Observation α)) (j : ℕ) (a : α) : Prop :=
  (∃ o, history[j]? = some o ∧ o.sample = some a)
  ∧ ∀ i o, j < i → history[i]? = some o → o.sample = none ∧ o.present = true

/-- Only what is there, or sampled, is remembered. -/
theorem present_of_isSome_remember {kept : Option α} {o : Observation α}
    (taken : o.sample.isSome → o.present = true) (some : (remember kept o).isSome)
    : o.present = true := by
  by_contra absent
  have silent : o.sample = none := by simpa using mt taken absent
  simp [remember, silent, absent] at some

theorem remembered_concat (history : List (Observation α)) (o : Observation α)
    : remembered (history ++ [o]) = remember (remembered history) o := by
  rw [remembered, List.foldl_append]
  rfl

/-- A sample that is the last observation is the only latest one, since every earlier one is
followed by it.
-/
theorem latestSample_concat_some {o : Observation α} {b : α} (sampled : o.sample = some b)
    (j : ℕ) (a : α)
    : LatestSample (history ++ [o]) j a ↔ j = history.length ∧ a = b := by
  constructor
  · intro h
    obtain ⟨⟨other, there, sample⟩, silent⟩ := h
    have last : (history ++ [o])[history.length]? = some o := by simp
    have within := (List.getElem?_eq_some_iff.mp there).1
    rw [List.length_append, List.length_singleton] at within
    rcases Nat.lt_succ_iff_lt_or_eq.mp within with earlier | rfl
    · have absent := (silent _ _ earlier last).1
      rw [sampled] at absent
      cases absent
    · rw [last] at there
      cases there
      rw [sampled] at sample
      exact ⟨rfl, (Option.some.inj sample).symm⟩
  · rintro ⟨rfl, rfl⟩
    refine ⟨⟨o, by simp, sampled⟩, ?_⟩
    intro i other after there
    have within := (List.getElem?_eq_some_iff.mp there).1
    rw [List.length_append, List.length_singleton] at within
    omega

/-- An observation without a sample keeps the latest one while its subject is there. Both ways,
positions before the last are those of the history.
-/
theorem latestSample_concat_none {o : Observation α} (silent : o.sample = none) (j : ℕ) (a : α)
    : LatestSample (history ++ [o]) j a ↔ LatestSample history j a ∧ o.present = true := by
  have last : (history ++ [o])[history.length]? = some o := by simp
  have before {i : ℕ} (within : i < history.length) : (history ++ [o])[i]? = history[i]? :=
    List.getElem?_append_left within
  constructor
  · intro h
    obtain ⟨⟨other, there, sample⟩, later⟩ := h
    have inside : j < history.length := by
      have within := (List.getElem?_eq_some_iff.mp there).1
      rw [List.length_append, List.length_singleton] at within
      apply Nat.lt_of_le_of_ne (Nat.le_of_lt_succ within)
      rintro rfl
      rw [last] at there
      cases there
      rw [silent] at sample
      cases sample
    rw [before inside] at there
    refine ⟨⟨⟨other, there, sample⟩, ?_⟩, (later _ _ inside last).2⟩
    intro i next after atI
    apply later i next after
    rwa [before (List.getElem?_eq_some_iff.mp atI).1]
  · intro h
    obtain ⟨⟨⟨other, there, sample⟩, later⟩, present⟩ := h
    have inside := (List.getElem?_eq_some_iff.mp there).1
    refine ⟨⟨other, by rwa [before inside], sample⟩, ?_⟩
    intro i next after atI
    have within := (List.getElem?_eq_some_iff.mp atI).1
    rw [List.length_append, List.length_singleton] at within
    rcases Nat.lt_succ_iff_lt_or_eq.mp within with earlier | rfl
    · rw [before earlier] at atI
      exact later i next after atI
    · rw [last] at atI
      cases atI
      exact ⟨silent, present⟩

/-- What is remembered is the latest sample, if its subject has been there ever since.
Witness: induction on the history from its end.
-/
theorem remembered_eq_some_iff (a : α)
    : remembered history = some a ↔ ∃ j, LatestSample history j a := by
  induction history using List.reverseRecOn with
  | nil =>
      constructor
      · intro kept
        cases kept
      · intro h
        obtain ⟨_, ⟨_, there, _⟩, _⟩ := h
        cases there
  | append_singleton history o ih =>
      rw [remembered_concat, remember]
      cases sampled : o.sample with
      | some b =>
          simp only [latestSample_concat_some sampled, Option.some_or, Option.some.injEq]
          constructor
          · intro same
            exact ⟨_, rfl, same.symm⟩
          · intro h
            obtain ⟨_, _, same⟩ := h
            exact same.symm
      | none =>
          simp only [latestSample_concat_none sampled, Option.none_or]
          cases o.present with
          | false => simp
          | true => simpa using ih

/-- Something is remembered exactly when something was sampled whose subject has been there
ever since. Witness: of all samples since then, the last one is remembered.
-/
theorem isSome_remembered_iff
    : (remembered history).isSome
      ↔ ∃ j : ℕ,
          (∃ o : Observation α, history[j]? = some o ∧ o.sample.isSome)
          ∧ ∀ (i : ℕ) (o : Observation α), j < i → history[i]? = some o → o.present = true := by
  classical
  rw [Option.isSome_iff_exists]
  simp only [remembered_eq_some_iff]
  constructor
  · intro h
    obtain ⟨a, j, ⟨o, there, sampled⟩, later⟩ := h
    exact ⟨j, ⟨o, there, by rw [sampled]; rfl⟩, fun i next after atI => (later i next after atI).2⟩
  · intro h
    obtain ⟨j, sampledAt, present⟩ := h
    let samples (i : ℕ) : Prop := ∃ o, history[i]? = some o ∧ o.sample.isSome
    have inside : j ≤ history.length := by
      obtain ⟨_, there, _⟩ := sampledAt
      exact (List.getElem?_eq_some_iff.mp there).1.le
    obtain ⟨o, thereLast, sampled⟩ : samples (Nat.findGreatest samples history.length) :=
      Nat.findGreatest_spec inside sampledAt
    obtain ⟨a, sample⟩ := Option.isSome_iff_exists.mp sampled
    refine ⟨a, _, ⟨o, thereLast, sample⟩, ?_⟩
    intro i next after atI
    refine ⟨?_, present i next ?_ atI⟩
    · have unsampled :=
        Nat.findGreatest_is_greatest after (List.getElem?_eq_some_iff.mp atI).1.le
      by_contra sampledAtI
      exact unsampled ⟨next, atI, Option.isSome_iff_ne_none.mpr sampledAtI⟩
    · exact (Nat.le_findGreatest inside sampledAt).trans_lt after

section Since

/-- A sample at `j`, of a subject that has been there up to a later observation `k`. -/
structure SampledSince (history : List (Observation α)) (j k : ℕ) : Prop where
  earlier : j < k
  sampled : ∃ o : Observation α, history[j]? = some o ∧ o.sample.isSome
  present : ∀ (i : ℕ) (o : Observation α), j ≤ i → i ≤ k → history[i]? = some o → o.present = true

/-- The latest such sample. -/
def LatestSince (history : List (Observation α)) (j k : ℕ) : Prop :=
  SampledSince history j k ∧ ∀ i, SampledSince history i k → i ≤ j

variable {k : ℕ} {last : Observation α}

/-- Before an observation of something present, what is remembered is the latest sample of
it. Witness: samples are only taken of what is there.
-/
theorem latestSample_take_iff (taken : ∀ o ∈ history, o.sample.isSome → o.present = true)
    (there : history[k]? = some last) (present : last.present = true) (j : ℕ) (a : α)
    : LatestSample (history.take k) j a
      ↔ LatestSince history j k
        ∧ ∃ o : Observation α, history[j]? = some o ∧ o.sample = some a := by
  have before {i : ℕ} {o : Observation α}
      : (history.take k)[i]? = some o ↔ i < k ∧ history[i]? = some o := by
    rw [List.getElem?_take]
    split <;> simp [*]
  constructor
  · intro h
    obtain ⟨⟨o, atJ, sampled⟩, silent⟩ := h
    obtain ⟨earlier, atJ⟩ := before.mp atJ
    refine ⟨⟨⟨earlier, ⟨o, atJ, by rw [sampled]; rfl⟩, ?_⟩, ?_⟩, o, atJ, sampled⟩
    · intro i next notBefore upTo atI
      rcases notBefore.eq_or_lt with rfl | after
      · exact taken next (List.mem_of_getElem? atI) (by
          rw [atJ] at atI
          cases atI
          rw [sampled]
          rfl)
      rcases upTo.eq_or_lt with rfl | within
      · rw [there] at atI
        cases atI
        exact present
      · exact (silent i next after (before.mpr ⟨within, atI⟩)).2
    · intro i since
      by_contra later
      obtain ⟨next, atI, sampledI⟩ := since.sampled
      rw [(silent i next (not_le.mp later) (before.mpr ⟨since.earlier, atI⟩)).1] at sampledI
      cases sampledI
  · intro h
    obtain ⟨⟨since, latest⟩, o, atJ, sampled⟩ := h
    refine ⟨⟨o, before.mpr ⟨since.earlier, atJ⟩, sampled⟩, ?_⟩
    intro i next after atI
    obtain ⟨within, atI⟩ := before.mp atI
    have presentI := since.present i next after.le within.le atI
    refine ⟨?_, presentI⟩
    by_contra sampledI
    have sinceI : SampledSince history i k :=
      ⟨within, ⟨next, atI, Option.isSome_iff_ne_none.mpr sampledI⟩,
        fun m o notBefore upTo atM => since.present m o (after.le.trans notBefore) upTo atM⟩
    exact absurd (latest i sinceI) (not_le.mpr after)

/-- Before an observation of something present, something is remembered exactly when it was
sampled and has been there since: the latest sample is one, and of several the last is the
latest.
-/
theorem isSome_remembered_take_iff
    (taken : ∀ o ∈ history, o.sample.isSome → o.present = true)
    (there : history[k]? = some last) (present : last.present = true)
    : (remembered (history.take k)).isSome ↔ ∃ j, SampledSince history j k := by
  rw [isSome_remembered_iff]
  constructor
  · intro h
    obtain ⟨j, ⟨o, atJ, sampled⟩, later⟩ := h
    have earlier : j < k := by
      have within := (List.getElem?_eq_some_iff.mp atJ).1
      rw [List.length_take] at within
      omega
    rw [List.getElem?_take, if_pos earlier] at atJ
    refine ⟨j, earlier, ⟨o, atJ, sampled⟩, ?_⟩
    intro i next notBefore upTo atI
    rcases notBefore.eq_or_lt with rfl | after
    · rw [atJ] at atI
      cases atI
      exact taken o (List.mem_of_getElem? atJ) sampled
    rcases upTo.eq_or_lt with rfl | within
    · rw [there] at atI
      cases atI
      exact present
    · exact later i next after (by rwa [List.getElem?_take, if_pos within])
  · intro h
    obtain ⟨j, since⟩ := h
    obtain ⟨o, atJ, sampled⟩ := since.sampled
    refine ⟨j, ⟨o, by rwa [List.getElem?_take, if_pos since.earlier], sampled⟩, ?_⟩
    intro i next after atI
    have within := (List.getElem?_eq_some_iff.mp atI).1
    rw [List.length_take] at within
    rw [List.getElem?_take, if_pos (by omega)] at atI
    exact since.present i next after.le (by omega) atI

end Since

section Observed

variable {γ : Type v} {observe : γ → Observation α} {subjects : List γ} {k : ℕ} {current : γ}

theorem remembered_map_take_iff
    (taken : ∀ c ∈ subjects, (observe c).sample.isSome → (observe c).present = true)
    (there : subjects[k]? = some current) (present : (observe current).present = true) (a : α)
    : remembered ((subjects.map observe).take k) = some a
      ↔ ∃ j c,
          LatestSince (subjects.map observe) j k
          ∧ subjects[j]? = some c
          ∧ (observe c).sample = some a := by
  rw [remembered_eq_some_iff]
  apply exists_congr
  intro j
  rw [latestSample_take_iff (by simpa using taken) (by rw [List.getElem?_map, there]; rfl) present]
  simp [List.getElem?_map]

theorem isSome_remembered_map_take_iff
    (taken : ∀ c ∈ subjects, (observe c).sample.isSome → (observe c).present = true)
    (there : subjects[k]? = some current) (present : (observe current).present = true)
    : (remembered ((subjects.map observe).take k)).isSome
      ↔ ∃ j, SampledSince (subjects.map observe) j k :=
  isSome_remembered_take_iff (by simpa using taken) (by rw [List.getElem?_map, there]; rfl) present

end Observed

end Baselines
