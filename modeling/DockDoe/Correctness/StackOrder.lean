import DockDoe.Correctness.EndpointCalls
import DockDoe.Foundations.Stages

/-! When the order of a stack respects its dependencies.
Progress is tracked by service, so a container is placed once every service it names has one
container placed. The rounds of `topo_order` are the stages of this relation.
-/

namespace DockDoe

open Traces

/-- A member depends on the containers of the services it names. -/
def Member.DependsOn (m other : Member) : Prop :=
  ∃ d ∈ m.deps, d.service = other.service

instance (m other : Member) : Decidable (m.DependsOn other) :=
  inferInstanceAs (Decidable (∃ d ∈ m.deps, d.service = other.service))

/-- No chain of dependencies between different members leads back to its start. -/
def AcyclicStack (members : List Member) : Prop :=
  ∀ i : Fin members.length,
    ¬ Relation.TransGen (fun i j => i ≠ j ∧ (members.get i).DependsOn (members.get j)) i i

/-- The containers stopped by a list of events, in order. -/
def stopCalls (events : List Event) : List Text :=
  events.filterMap stoppedId

/-- Every member comes after the members it depends on, and is stopped before them. -/
structure OrdersDependencies (members : List Member) : Prop where
  perm : (topoOrder members).Perm members
  starts : (topoOrder members).Pairwise (fun earlier later => ¬ earlier.DependsOn later)
  stops
    : ∀ (endpoint : Endpoint) (events : List Event),
        ∃ order : List Member,
          order.Perm members
          ∧ stopCalls (appended (endpoint.stopInOrder members) events)
            = order.map Member.id
          ∧ order.Pairwise (fun earlier later => ¬ later.DependsOn earlier)

/-- A member is placeable in `k + 1` rounds when each in-stack service it names has a
container that is placeable in `k`.
-/
def placeable (members : List Member) : ℕ → Member → Bool
  | 0, _ => false
  | k + 1, m =>
      m.deps.all (fun d =>
        !inStack members d.service
        || members.any (fun other => other.service == d.service && placeable members k other))

/-- One less than the rounds that place a member; the number of members if none do. -/
def depth (members : List Member) (m : Member) : ℕ :=
  Stages.stage (placeable members) members.length m

/-- A member a later one depends on is not deeper than it, and one that an earlier one
depends on is less deep.
-/
def DepthsOrdered (members : List Member) : Prop :=
  members.Pairwise (fun first second =>
    (first.DependsOn second → depth members second < depth members first)
    ∧ (second.DependsOn first → depth members first ≤ depth members second))

section Rounds

variable {members : List Member}

theorem placeable_succ_iff {k : ℕ} {m : Member}
    : placeable members (k + 1) m = true
      ↔ ∀ d ∈ m.deps, inStack members d.service = true →
          ∃ other ∈ members, other.service = d.service ∧ placeable members k other = true := by
  rw [placeable, List.all_eq_true]
  apply forall₂_congr
  intro d _
  cases inStack members d.service <;> simp

/-- Rounds after which the same members are placeable are followed by such rounds, since a round
only looks at who was placeable before it.
-/
theorem placeable_congr {j k : ℕ}
    (same : ∀ m ∈ members, placeable members j m = placeable members k m) (m : Member)
    : placeable members (j + 1) m = placeable members (k + 1) m := by
  rw [Bool.eq_iff_iff, placeable_succ_iff, placeable_succ_iff]
  constructor
  · intro now d dep inside
    obtain ⟨other, member, service, placed⟩ := now d dep inside
    exact ⟨other, member, service, same other member ▸ placed⟩
  · intro now d dep inside
    obtain ⟨other, member, service, placed⟩ := now d dep inside
    exact ⟨other, member, service, (same other member).symm ▸ placed⟩

/-- Who is placeable in a round is so in all later ones, by induction on the round. -/
theorem placeable_grows (members : List Member) : Stages.Grows (placeable members) where
  initial _ := rfl
  kept k := by
    induction k with
    | zero => intro m now; cases now
    | succ k ih =>
        intro m now
        apply placeable_succ_iff.mpr
        intro d dep inside
        obtain ⟨other, member, service, placed⟩ := placeable_succ_iff.mp now d dep inside
        exact ⟨other, member, service, ih other placed⟩

/-- Once a round places nobody, no later one does. -/
theorem placeable_stuck {k : ℕ}
    (stuck : ∀ m ∈ members, placeable members (k + 1) m = placeable members k m) (j : ℕ)
    : ∀ m ∈ members, placeable members (k + j) m = placeable members k m := by
  induction j with
  | zero => exact fun m _ => rfl
  | succ j ih =>
      intro m member
      exact (placeable_congr ih m).trans (stuck m member)

/-- Readiness is placeability in one more round, when the placed services are those with a
container placeable so far.
-/
theorem isReady_eq {k : ℕ} {placed : List Text}
    (services
      : ∀ s, s ∈ placed ↔ ∃ other ∈ members, other.service = s ∧ placeable members k other = true)
    (m : Member)
    : isReady members placed m = placeable members (k + 1) m := by
  rw [Bool.eq_iff_iff, placeable_succ_iff, isReady, List.all_eq_true]
  apply forall₂_congr
  intro d _
  rw [← services d.service]
  cases inStack members d.service <;> simp

theorem depth_eq_iff {k : ℕ} (within : k ≤ members.length) {m : Member}
    : depth members m = k
      ↔ placeable members k m = false ∧ (k < members.length → placeable members (k + 1) m = true) :=
  Stages.stage_eq_iff (placeable_grows members) within

theorem depth_le (members : List Member) (m : Member) : depth members m ≤ members.length :=
  Stages.stage_le _ _ _

/-- A member is not placeable up to its depth. -/
theorem not_placeable_of_le_depth {k : ℕ} {m : Member} (le : k ≤ depth members m)
    : placeable members k m = false := by
  have atDepth := ((depth_eq_iff (depth_le members m)).mp rfl).1
  by_contra now
  have later := (placeable_grows members).mono le (Bool.not_eq_false _ ▸ now)
  rw [atDepth] at later
  cases later

/-- The next round places the members of its depth. -/
theorem placeable_succ_iff_depth {k : ℕ} (within : k < members.length) {m : Member}
    : placeable members (k + 1) m = true
      ↔ placeable members k m = true ∨ depth members m = k := by
  have kept := (placeable_grows members).kept k m
  rw [depth_eq_iff within.le]
  cases before : placeable members k m with
  | true => simp [kept before]
  | false => simp [within]

theorem remaining_ready {k : ℕ} (within : k < members.length)
    : (members.filter (fun m => !placeable members k m)).filter (placeable members (k + 1))
      = members.filter (fun m => depth members m == k) := by
  rw [List.filter_filter]
  apply List.filter_congr
  intro m _
  rw [Bool.eq_iff_iff, beq_iff_eq, depth_eq_iff within.le]
  simp [within, and_comm]

theorem remaining_notReady {k : ℕ}
    : (members.filter (fun m => !placeable members k m)).filter
        (fun m => !placeable members (k + 1) m)
      = members.filter (fun m => !placeable members (k + 1) m) := by
  rw [List.filter_filter]
  apply List.filter_congr
  intro m _
  have kept := (placeable_grows members).kept k m
  cases now : placeable members k m with
  | false => simp
  | true => simp [kept now]

/-- Once all members are placed, no later round lists any. -/
theorem laterRounds_nil {k : ℕ} (empty : members.filter (fun m => !placeable members k m) = [])
    (n : ℕ)
    : (List.range' k n).flatMap (fun j => members.filter (fun m => depth members m == j)) = [] := by
  simp only [List.flatMap_eq_nil_iff, List.filter_eq_nil_iff, List.mem_range'_1, beq_iff_eq]
  intro j within m member atJ
  have absent := List.filter_eq_nil_iff.mp empty m member
  exact absent (by simp [not_placeable_of_le_depth (atJ ▸ within.1)])

/-- When a round places nobody, the members that remain are the deepest.
Witness: placeability no longer changes, so no depth lies between that round and the last.
-/
theorem stuckRounds_eq {k fuel : ℕ} (budget : k + (fuel + 1) = members.length)
    (stuck : members.filter (fun m => depth members m == k) = [])
    : (List.range' k (fuel + 1 + 1)).flatMap
        (fun j => members.filter (fun m => depth members m == j))
      = members.filter (fun m => !placeable members (k + 1) m) := by
  have still : ∀ m ∈ members, placeable members (k + 1) m = placeable members k m := by
    intro m member
    have notHere : ¬ depth members m = k := by
      simpa using List.filter_eq_nil_iff.mp stuck m member
    rw [depth_eq_iff (by omega)] at notHere
    have kept := (placeable_grows members).kept k m
    cases before : placeable members k m with
    | true => exact kept before
    | false => simpa [before, show k < members.length by omega] using notHere
  have forever {j : ℕ} (le : k ≤ j) (m : Member) (member : m ∈ members)
      : placeable members j m = placeable members k m := by
    have later := placeable_stuck still (j - k) m member
    rwa [Nat.add_sub_cancel' le] at later
  rw [List.range'_1_concat, List.flatMap_append, List.flatMap_singleton, budget]
  have between
      : (List.range' k (fuel + 1)).flatMap
          (fun j => members.filter (fun m => depth members m == j))
        = [] := by
    simp only [List.flatMap_eq_nil_iff, List.filter_eq_nil_iff, List.mem_range'_1, beq_iff_eq]
    intro j within m member atJ
    obtain ⟨notYet, after⟩ := (depth_eq_iff (by omega)).mp atJ
    have now := after (by omega)
    rw [forever (by omega) m member] at now notYet
    rw [notYet] at now
    cases now
  rw [between, List.nil_append]
  apply List.filter_congr
  intro m member
  rw [Bool.eq_iff_iff, beq_iff_eq, depth_eq_iff le_rfl, forever (by omega) m member,
    forever (Nat.le_succ k) m member]
  simp

/-- The rounds still to come list the remaining members by depth. By induction on the rounds
left; a round that finds nobody ends the loop with everybody, as `stuckRounds_eq` shows that they
all have the last depth.
-/
theorem topoLoop_eq {k fuel : ℕ} {placed : List Text} (budget : k + fuel = members.length)
    (services
      : ∀ s, s ∈ placed ↔ ∃ other ∈ members, other.service = s ∧ placeable members k other = true)
    (few : (members.filter (fun m => !placeable members k m)).length ≤ fuel)
    (result : List Member)
    : topoLoop members fuel placed result (members.filter (fun m => !placeable members k m))
      = result ++ (List.range' k (fuel + 1)).flatMap
          (fun j => members.filter (fun m => depth members m == j)) := by
  induction fuel generalizing k placed result with
  | zero =>
      have empty := List.length_eq_zero_iff.mp (Nat.le_zero.mp few)
      rw [topoLoop, laterRounds_nil empty, List.append_nil]
  | succ fuel ih =>
      have within : k < members.length := by omega
      have ready : isReady members placed = placeable members (k + 1) :=
        funext (isReady_eq services)
      rw [topoLoop, ready]
      by_cases empty : members.filter (fun m => !placeable members k m) = []
      · rw [if_pos (by simp [empty]), laterRounds_nil empty, List.append_nil]
      rw [if_neg (by simpa using empty)]
      simp only [remaining_ready within, remaining_notReady]
      by_cases stuck : members.filter (fun m => depth members m == k) = []
      · rw [if_pos (by simp [stuck]), stuckRounds_eq budget stuck]
      · rw [if_neg (by simpa using stuck), List.range'_succ, List.flatMap_cons,
          ← List.append_assoc]
        apply ih (by omega)
        · intro service
          simp only [List.mem_append, services service, List.mem_map, List.mem_filter, beq_iff_eq,
            placeable_succ_iff_depth within]
          grind
        · have parts := List.length_eq_length_filter_add
            (l := members.filter (fun m => !placeable members k m)) (placeable members (k + 1))
          rw [remaining_ready within, remaining_notReady] at parts
          have some := List.length_pos_iff.mpr stuck
          omega

/-- The order of a stack lists its members by depth: at the start nobody is placed and everybody
remains.
-/
theorem topoOrder_eq (members : List Member)
    : topoOrder members = Stages.inStages (depth members) members.length members := by
  have everyone : members.filter (fun m => !placeable members 0 m) = members :=
    List.filter_eq_self.mpr (fun _ _ => rfl)
  have loop : topoLoop members members.length [] []
        (members.filter (fun m => !placeable members 0 m))
      = _ :=
    topoLoop_eq (Nat.zero_add _) (by simp [placeable]) (by rw [everyone]) []
  rw [everyone, List.nil_append] at loop
  rw [topoOrder, loop, Stages.inStages, List.range_eq_range']

theorem topoOrder_perm (members : List Member) : (topoOrder members).Perm members := by
  rw [topoOrder_eq]
  exact Stages.inStages_perm (fun m _ => depth_le members m)

/-- Dependencies come first exactly when depths are ordered, since the order of a listing by
stages is that of the stages.
-/
theorem topoOrder_pairwise_iff
    : (topoOrder members).Pairwise (fun earlier later => ¬ earlier.DependsOn later)
      ↔ DepthsOrdered members := by
  rw [topoOrder_eq, Stages.pairwise_inStages_iff (fun m _ => depth_le members m), DepthsOrdered]
  apply iff_of_eq
  congr
  funext first second
  apply propext
  by_cases deeper : depth members second < depth members first
  · simp [deeper, deeper.not_ge]
  · simp [deeper, Nat.le_of_not_lt deeper]

end Rounds

section Stops

theorem stopMember_shows (endpoint : Endpoint) (failed : ℕ) (m : Member)
    : Shows stoppedId (endpoint.stopMember failed m) [m.id] := by
  apply (apply_shows endpoint m.id .stop).bind_silent
  intro result
  cases result with
  | ok => exact shows_pure failed
  | error => exact shows_pure (failed + 1)

/-- Stopping a stack stops its members in reverse order. -/
theorem stopCalls_stopInOrder (endpoint : Endpoint) (members : List Member) (events : List Event)
    : stopCalls (appended (endpoint.stopInOrder members) events)
      = (topoOrder members).reverse.map Member.id := by
  have whole : Shows stoppedId (endpoint.stopInOrder members) _ :=
    (shows_foldlM (stopMember_shows endpoint) (topoOrder members).reverse 0).bind_silent
      (fun _ => shows_pure _)
  rw [List.map_eq_flatMap]
  exact whole.appended events

end Stops

/-- A stack is ordered by its dependencies exactly when their depths allow it. Witness: the loop
places the members stage by stage, and a member's stage is its depth.
-/
theorem ordersDependencies_iff (members : List Member)
    : OrdersDependencies members ↔ DepthsOrdered members := by
  constructor
  · intro ordered
    exact topoOrder_pairwise_iff.mp ordered.starts
  · intro depths
    have starts := topoOrder_pairwise_iff.mpr depths
    refine ⟨topoOrder_perm members, starts, ?_⟩
    intro endpoint events
    exact ⟨(topoOrder members).reverse,
      (List.reverse_perm _).trans (topoOrder_perm members),
      stopCalls_stopInOrder endpoint members events, List.pairwise_reverse.mpr starts⟩

section LateReplica

/-- Dependencies that lower a rank lead nowhere back: along any path of them the rank falls. -/
theorem acyclicStack_of_rank {members : List Member} (rank : Fin members.length → ℕ)
    (lower
      : ∀ i j, i ≠ j → (members.get i).DependsOn (members.get j) → rank j < rank i)
    : AcyclicStack members := by
  intro i cycle
  have falls {i j : Fin members.length}
      (path
        : Relation.TransGen
            (fun i j => i ≠ j ∧ (members.get i).DependsOn (members.get j)) i j)
      : rank j < rank i := by
    induction path with
    | single step => exact lower _ _ step.1 step.2
    | tail _ step ih => exact (lower _ _ step.1 step.2).trans ih
  exact lt_irrefl _ (falls cycle)

/-- A scaled database of which one container needs a cache, and an app that needs both. -/
def lateReplica : List Member :=
  let needs (service : String) : Dep := { service := service.toList, condition := .started }
  [{ id := "app".toList, service := "app".toList, deps := [needs "db"] },
    { id := "db-1".toList, service := "db".toList, deps := [needs "cache"] },
    { id := "db-2".toList, service := "db".toList, deps := [] },
    { id := "cache".toList, service := "cache".toList, deps := [] }]

/-- The app starts as soon as one database container does, before the other. -/
theorem lateReplica_misordered
    : AcyclicStack lateReplica
      ∧ (topoOrder lateReplica).map Member.id
        = ["db-2".toList, "cache".toList, "app".toList, "db-1".toList]
      ∧ ¬ OrdersDependencies lateReplica := by
  refine ⟨acyclicStack_of_rank (fun i => [2, 1, 0, 0].getD i 0) (by decide), by decide, ?_⟩
  intro ordered
  exact absurd ordered.starts (by decide)

end LateReplica

end DockDoe
