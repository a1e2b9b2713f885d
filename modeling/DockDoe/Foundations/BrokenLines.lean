import Mathlib
import DockDoe.Foundations.RingBuffers

/-! Lines through samples at times. Where two neighbours are further apart than a gap, the line
is broken: a hole is inserted after the earlier one. A recorder that is given samples one by
one, skips those at the time of its last entry and keeps a bounded number of entries holds the
end of the broken line through all the samples it has taken.
-/

namespace BrokenLines

open RingBuffers (rtake_append_rtake length_rtake_le)

variable {α : Type u}

/-- An entry of a line: a sample, or a hole that is inserted at a time. -/
inductive Entry (α : Type u)
  | sample (a : α)
  | hole (time : ℤ)

namespace Entry

def time (timeOf : α → ℤ) : Entry α → ℤ
  | .sample a => timeOf a
  | .hole t => t

/-- The sample of an entry. -/
def sample? : Entry α → Option α
  | .sample a => some a
  | .hole _ => none

/-- The entry is an inserted one. -/
def IsHole (entry : Entry α) : Prop :=
  ∃ t, entry = .hole t

end Entry

variable (timeOf : α → ℤ) (gap : ℤ)

/-- The time of the last entry. -/
def endTime (entries : List (Entry α)) : Option ℤ :=
  entries.getLast?.map (Entry.time timeOf)

/-- The hole between an entry at `last` and a sample. -/
def holeAfter (last : Option ℤ) (a : α) : List (Entry α) :=
  match last with
  | none => []
  | some t => if gap < timeOf a - t then [.hole (t + 1)] else []

/-- A line that goes on to one more sample. -/
def extend (entries : List (Entry α)) (a : α) : List (Entry α) :=
  entries ++ holeAfter timeOf gap (endTime timeOf entries) a ++ [.sample a]

/-- The broken line through samples. -/
def line (samples : List α) : List (Entry α) :=
  samples.foldl (extend timeOf gap) []

/-- The recorder's step. -/
def record (bound : ℕ) (entries : List (Entry α)) (a : α) : List (Entry α) :=
  if endTime timeOf entries = some (timeOf a) then entries
  else (extend timeOf gap entries a).rtake bound

/-- The samples that are taken after one at `last`: those not at the time of the one before. -/
def fresh : Option ℤ → List α → List α
  | _, [] => []
  | last, a :: rest =>
      if last = some (timeOf a) then fresh last rest else a :: fresh (some (timeOf a)) rest

/-- What a recorder holds after the line through a seed and further samples. -/
def recorded (bound : ℕ) (seed samples : List α) : List (Entry α) :=
  match fresh timeOf (seed.getLast?.map timeOf) samples with
  | [] => line timeOf gap seed
  | a :: taken => (line timeOf gap (seed ++ a :: taken)).rtake bound

variable {timeOf : α → ℤ} {gap : ℤ}

section Lines

@[simp]
theorem endTime_extend (entries : List (Entry α)) (a : α)
    : endTime timeOf (extend timeOf gap entries a) = some (timeOf a) := by
  rw [endTime, extend, List.getLast?_concat]
  rfl

theorem line_concat (samples : List α) (a : α)
    : line timeOf gap (samples ++ [a]) = extend timeOf gap (line timeOf gap samples) a := by
  rw [line, List.foldl_concat]
  rfl

theorem endTime_line (samples : List α)
    : endTime timeOf (line timeOf gap samples) = samples.getLast?.map timeOf := by
  induction samples using List.reverseRecOn with
  | nil => rfl
  | append_singleton rest a _ =>
      rw [line_concat, endTime_extend, List.getLast?_concat, Option.map_some]

theorem filterMap_holeAfter (last : Option ℤ) (a : α)
    : (holeAfter timeOf gap last a).filterMap Entry.sample? = [] := by
  unfold holeAfter
  split
  · rfl
  · split <;> rfl

/-- A line goes through its samples and nothing else, by induction on the samples from the back. -/
theorem filterMap_line (samples : List α)
    : (line timeOf gap samples).filterMap Entry.sample? = samples := by
  induction samples using List.reverseRecOn with
  | nil => rfl
  | append_singleton rest a ih =>
      rw [line_concat, extend, List.filterMap_append, List.filterMap_append, ih,
        filterMap_holeAfter, List.append_nil]
      rfl

/-- An entry comes right after another: not earlier, and with a gap only after a hole. -/
structure Follows (timeOf : α → ℤ) (gap : ℤ) (earlier later : Entry α) : Prop where
  ordered : earlier.time timeOf ≤ later.time timeOf
  broken : gap < later.time timeOf - earlier.time timeOf → earlier.IsHole

/-- A line stays ordered and broken when it goes on to a sample that is not earlier than its
end. Witness: the hole is one step after the end, and the sample is further.
-/
theorem isChain_extend {entries : List (Entry α)} {a : α} (positive : 0 < gap)
    (chain : entries.IsChain (Follows timeOf gap))
    (after : ∀ t ∈ endTime timeOf entries, t ≤ timeOf a)
    : (extend timeOf gap entries a).IsChain (Follows timeOf gap) := by
  unfold extend
  cases ended : entries.getLast? with
  | none =>
      rw [List.getLast?_eq_none_iff.mp ended]
      exact List.isChain_singleton _
  | some last =>
      have own : endTime timeOf entries = some (last.time timeOf) := by
        rw [endTime, ended, Option.map_some]
      have le := after _ own
      rw [own, holeAfter, List.append_assoc]
      refine chain.append ?_ ?_
      · by_cases far : gap < timeOf a - last.time timeOf
        · have further : last.time timeOf + 1 ≤ timeOf a := by omega
          rw [if_pos far]
          exact List.isChain_pair.mpr ⟨further, fun _ => ⟨_, rfl⟩⟩
        · rw [if_neg far]
          exact List.isChain_singleton _
      · intro earlier isLast later isHead
        obtain rfl := Option.some.inj (ended.symm.trans isLast)
        by_cases far : gap < timeOf a - last.time timeOf
        · rw [if_pos far] at isHead
          obtain rfl := Option.some.inj isHead
          exact ⟨(lt_add_one _).le, fun wide => by simp only [Entry.time] at wide; omega⟩
        · rw [if_neg far] at isHead
          obtain rfl := Option.some.inj isHead
          exact ⟨le, fun wide => absurd wide far⟩

/-- The line through samples in order is ordered and broken, by induction on the samples. -/
theorem isChain_line {samples : List α} (positive : 0 < gap)
    (ordered : (samples.map timeOf).Pairwise (· ≤ ·))
    : (line timeOf gap samples).IsChain (Follows timeOf gap) := by
  induction samples using List.reverseRecOn with
  | nil => exact List.isChain_nil
  | append_singleton rest a ih =>
      rw [List.map_append, List.pairwise_append] at ordered
      obtain ⟨orderedRest, _, before⟩ := ordered
      rw [line_concat]
      refine isChain_extend positive (ih orderedRest) (fun t isLast => ?_)
      rw [endTime_line, Option.mem_def, Option.map_eq_some_iff] at isLast
      obtain ⟨last, found, rfl⟩ := isLast
      exact before _ (List.mem_map_of_mem (List.mem_of_getLast? found)) _ (by simp)

/-- The times along an ordered line. -/
theorem pairwise_times {entries : List (Entry α)} (chain : entries.IsChain (Follows timeOf gap))
    : (entries.map (Entry.time timeOf)).Pairwise (· ≤ ·) := by
  rw [← List.isChain_iff_pairwise, List.isChain_map]
  exact chain.imp (fun _ _ follows => follows.ordered)

end Lines

section Recorder

variable {bound : ℕ}

theorem rtake_suffix (n : ℕ) (entries : List (Entry α)) : entries.rtake n <:+ entries :=
  List.drop_suffix _ _

/-- A list beyond the bound loses its first entry. -/
theorem rtake_cons {n : ℕ} {entries : List (Entry α)} (long : n < entries.length + 1)
    (entry : Entry α)
    : (entry :: entries).rtake n = entries.rtake n := by
  rw [List.rtake, List.rtake, List.length_cons, Nat.succ_sub (by omega), List.drop_succ_cons]

theorem rtake_of_length_le {n : ℕ} {entries : List (Entry α)} (short : entries.length ≤ n)
    : entries.rtake n = entries := by
  rw [List.rtake, Nat.sub_eq_zero_of_le short, List.drop_zero]

theorem getLast?_rtake (positive : 0 < bound) (entries : List (Entry α))
    : (entries.rtake bound).getLast? = entries.getLast? := by
  rw [List.rtake_eq_reverse_take_reverse, List.getLast?_reverse, List.head?_take,
    if_neg positive.ne', List.head?_reverse]

theorem endTime_rtake (positive : 0 < bound) (entries : List (Entry α))
    : endTime timeOf (entries.rtake bound) = endTime timeOf entries := by
  rw [endTime, endTime, getLast?_rtake positive]

/-- A cut line goes on like the whole one. -/
theorem extend_rtake (positive : 0 < bound) (entries : List (Entry α)) (a : α)
    : (extend timeOf gap (entries.rtake bound) a).rtake bound
      = (extend timeOf gap entries a).rtake bound := by
  rw [extend, extend, endTime_rtake positive, List.append_assoc, List.append_assoc,
    rtake_append_rtake]

/-- A recorder with the end of a line ends with the line through what it takes, by induction on
the samples.
-/
theorem foldl_record_rtake (positive : 0 < bound) (taken samples : List α)
    : samples.foldl (record timeOf gap bound) ((line timeOf gap taken).rtake bound)
      = (line timeOf gap
          (taken ++ fresh timeOf (taken.getLast?.map timeOf) samples)).rtake bound := by
  induction samples generalizing taken with
  | nil => rw [fresh, List.append_nil, List.foldl_nil]
  | cons a rest ih =>
      rw [List.foldl_cons, record, endTime_rtake positive, endTime_line, fresh]
      by_cases skipped : taken.getLast?.map timeOf = some (timeOf a)
      · rw [if_pos skipped, if_pos skipped]
        exact ih taken
      · rw [if_neg skipped, if_neg skipped, extend_rtake positive, ← line_concat, ih,
          List.getLast?_concat, List.append_assoc]
        rfl

/-- A recorder with a whole line ends with what is recorded after it: the first sample that is
taken cuts the line. By induction on the samples, skipping those at the line's end.
-/
theorem foldl_record_line (positive : 0 < bound) (seed samples : List α)
    : samples.foldl (record timeOf gap bound) (line timeOf gap seed)
      = recorded timeOf gap bound seed samples := by
  induction samples with
  | nil => rfl
  | cons a rest ih =>
      rw [List.foldl_cons, record, endTime_line, recorded, fresh]
      by_cases skipped : seed.getLast?.map timeOf = some (timeOf a)
      · rw [if_pos skipped, if_pos skipped, ih, recorded]
      · rw [if_neg skipped, if_neg skipped, ← line_concat, foldl_record_rtake positive,
          List.getLast?_concat, List.append_assoc]
        rfl

/-- Among samples not all at one time some are taken after it, by induction on the samples. -/
theorem fresh_ne_nil {last : Option ℤ} {samples : List α} {a : α} (member : a ∈ samples)
    (other : last ≠ some (timeOf a))
    : fresh timeOf last samples ≠ [] := by
  induction samples with
  | nil => cases member
  | cons first rest ih =>
      rw [fresh]
      by_cases skipped : last = some (timeOf first)
      · rw [if_pos skipped]
        refine ih ((List.mem_cons.mp member).resolve_left (fun same => ?_))
        exact other (same ▸ skipped)
      · rw [if_neg skipped]
        exact List.cons_ne_nil _ _

/-- The samples taken are among those offered, by induction on the samples. -/
theorem fresh_sublist (last : Option ℤ) (samples : List α)
    : (fresh timeOf last samples).Sublist samples := by
  induction samples generalizing last with
  | nil => exact List.Sublist.slnil
  | cons first rest ih =>
      rw [fresh]
      by_cases skipped : last = some (timeOf first)
      · rw [if_pos skipped]
        exact (ih last).cons first
      · rw [if_neg skipped]
        exact (ih _).cons_cons first

/-- What is recorded is the end of the line through the seed and the samples taken. -/
theorem recorded_suffix (seed samples : List α)
    : recorded timeOf gap bound seed samples
      <:+ line timeOf gap (seed ++ fresh timeOf (seed.getLast?.map timeOf) samples) := by
  unfold recorded
  cases fresh timeOf (seed.getLast?.map timeOf) samples with
  | nil =>
      rw [List.append_nil]
  | cons a taken => exact rtake_suffix _ _

theorem length_recorded_le {seed samples : List α} {a : α} (member : a ∈ samples)
    (other : seed.getLast?.map timeOf ≠ some (timeOf a))
    : (recorded timeOf gap bound seed samples).length ≤ bound := by
  have taken := fresh_ne_nil member other
  unfold recorded
  cases own : fresh timeOf (seed.getLast?.map timeOf) samples with
  | nil => exact absurd own taken
  | cons a taken => exact length_rtake_le _ _

/-- What is recorded of a seed and samples in order is ordered and broken. -/
theorem isChain_recorded (positive : 0 < gap) {seed samples : List α}
    (ordered : ((seed ++ samples).map timeOf).Pairwise (· ≤ ·))
    : (recorded timeOf gap bound seed samples).IsChain (Follows timeOf gap) := by
  let last := seed.getLast?.map timeOf
  have kept : (seed ++ fresh timeOf last samples).Sublist (seed ++ samples) :=
    (List.Sublist.refl seed).append (fresh_sublist last samples)
  exact (isChain_line positive (ordered.sublist (kept.map timeOf))).suffix
    (recorded_suffix seed samples)

end Recorder

end BrokenLines
