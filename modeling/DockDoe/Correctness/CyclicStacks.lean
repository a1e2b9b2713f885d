import DockDoe.Correctness.StackOrder
import DockDoe.Foundations.Walks

/-! What the order of a stack with cyclic dependencies is. Members that cannot be placed are
those from which a cycle is reached; they stand at the end as they were listed.
-/

namespace DockDoe

open Walks

/-- A member depends on another one of the stack. -/
def InStackDependency (members : List Member) (m other : Member) : Prop :=
  other ∈ members ∧ m.DependsOn other

/-- The order is a rearrangement of the members in two parts: first members that each come
after all members they depend on, then, as listed, the members that reach a cycle.
-/
structure SplitsAtCycles (members placed stuck : List Member) : Prop where
  whole : topoOrder members = placed ++ stuck
  perm : (topoOrder members).Perm members
  listed : stuck.Sublist members
  cyclic : ∀ m ∈ members, m ∈ stuck ↔ ReachesCycle (InStackDependency members) m
  ordered
    : ∀ before m after, placed = before ++ m :: after →
        ∀ other ∈ members, m.DependsOn other → other ∈ before

section Distinct

variable {members : List Member}

/-- The loop ends by itself: more rounds change nothing, by induction on the rounds, as each
places a member or is the last.
-/
theorem topoLoop_of_enough {fuel : ℕ} {placed : List Text} {result remaining : List Member}
    (enough : remaining.length ≤ fuel)
    : topoLoop members (fuel + 1) placed result remaining
      = topoLoop members fuel placed result remaining := by
  induction fuel generalizing placed result remaining with
  | zero =>
      rw [List.length_eq_zero_iff.mp (Nat.le_zero.mp enough)]
      rfl
  | succ fuel ih =>
      conv_lhs => rw [topoLoop]
      conv_rhs => rw [topoLoop]
      by_cases done : remaining.isEmpty
      · rw [if_pos done, if_pos done]
      · rw [if_neg done, if_neg done]
        by_cases blocked : (remaining.filter (isReady members placed)).isEmpty
        · simp only [if_pos blocked]
        · simp only [if_neg blocked]
          -- A round that places somebody leaves fewer members.
          have parts := List.length_eq_length_filter_add (l := remaining) (isReady members placed)
          have some : 0 < (remaining.filter (isReady members placed)).length :=
            List.length_pos_iff.mpr (fun empty => blocked (List.isEmpty_iff.mpr empty))
          exact ih (by omega)

/-- Rounds beyond the number of members do not matter. -/
theorem topoLoop_terminates {fuel : ℕ} (enough : members.length ≤ fuel)
    : topoLoop members fuel [] [] members = topoOrder members := by
  induction fuel, enough using Nat.le_induction with
  | base => rfl
  | succ fuel enough ih => rw [topoLoop_of_enough enough, ih]

/-- After as many rounds as there are members nobody else can be placed. -/
theorem placeable_settled (members : List Member)
    : ∀ m ∈ members,
        placeable members (members.length + 1) m = placeable members members.length m :=
  (placeable_grows members).settled (fun _ stuck j => placeable_stuck stuck j)

/-- A member from which a cycle is reached is never placeable.
Witness: induction on the rounds; one of its dependencies reaches the cycle too.
-/
theorem not_placeable_of_reachesCycle (distinct : (members.map Member.service).Nodup) (k : ℕ)
    {m : Member} (reaches : ReachesCycle (InStackDependency members) m)
    : placeable members k m = false := by
  induction k generalizing m with
  | zero => rfl
  | succ k ih =>
      obtain ⟨next, ⟨inMembers, d, dep, service⟩, nextReaches⟩ := reaches.next
      by_contra now
      have inside : inStack members d.service = true := by
        rw [inStack, List.any_eq_true]
        exact ⟨next, inMembers, beq_iff_eq.mpr service.symm⟩
      obtain ⟨other, otherIn, otherService, placed⟩ :=
        placeable_succ_iff.mp (Bool.not_eq_false _ ▸ now) d dep inside
      have same : other = next :=
        List.inj_on_of_nodup_map distinct otherIn inMembers (otherService.trans service)
      rw [same, ih nextReaches] at placed
      cases placed

/-- A member that is not placeable depends on another such member, or it would be placeable in
the next round.
-/
theorem exists_dependency_of_not_placeable {m : Member} (member : m ∈ members)
    (never : placeable members members.length m = false)
    : ∃ other ∈ members,
        placeable members members.length other = false ∧ InStackDependency members m other := by
  have notNext := (placeable_settled members m member).trans never
  by_contra none
  push Not at none
  have next : placeable members (members.length + 1) m = true := by
    refine placeable_succ_iff.mpr (fun d dep inside => ?_)
    rw [inStack, List.any_eq_true] at inside
    obtain ⟨other, otherIn, service⟩ := inside
    have service := beq_iff_eq.mp service
    refine ⟨other, otherIn, service, ?_⟩
    by_contra notPlaced
    exact none other otherIn (Bool.eq_false_iff.mpr notPlaced) ⟨otherIn, d, dep, service.symm⟩
  rw [notNext] at next
  cases next

/-- The members that are never placeable are those from which a cycle is reached. Witness: going
on to a dependency that is not placeable never ends, so in a finite stack it comes back.
-/
theorem not_placeable_iff (distinct : (members.map Member.service).Nodup) {m : Member}
    (member : m ∈ members)
    : placeable members members.length m = false
      ↔ ReachesCycle (InStackDependency members) m := by
  constructor
  · intro never
    let blocked : Set Member := {m | m ∈ members ∧ placeable members members.length m = false}
    have finite : blocked.Finite := (List.finite_toSet members).subset (fun _ own => own.1)
    refine reachesCycle_of_next finite (fun other own => ?_) ⟨member, never⟩
    obtain ⟨next, nextIn, nextNever, step⟩ := exists_dependency_of_not_placeable own.1 own.2
    exact ⟨next, ⟨nextIn, nextNever⟩, step⟩
  · exact not_placeable_of_reachesCycle distinct members.length

/-- A member that is placed is deeper than all members it depends on, which are placeable in the
round before.
-/
theorem depth_lt_of_dependsOn (distinct : (members.map Member.service).Nodup) {m other : Member}
    (placed : depth members m < members.length) (otherIn : other ∈ members)
    (depends : m.DependsOn other)
    : depth members other < depth members m := by
  obtain ⟨d, dep, service⟩ := depends
  have next := ((depth_eq_iff (depth_le members m)).mp rfl).2 placed
  have inside : inStack members d.service = true := by
    rw [inStack, List.any_eq_true]
    exact ⟨other, otherIn, beq_iff_eq.mpr service.symm⟩
  obtain ⟨found, foundIn, foundService, atDepth⟩ := placeable_succ_iff.mp next d dep inside
  obtain rfl : found = other :=
    List.inj_on_of_nodup_map distinct foundIn otherIn (foundService.trans service)
  by_contra notLess
  rw [not_placeable_of_le_depth (Nat.le_of_not_lt notLess)] at atDepth
  cases atDepth

/-- The loop ends, and the order of a stack whose services are distinct splits at cycles.
Witness: first come the members of a depth, stage by stage, and then those that wait for a cycle,
in the order of the listing.
-/
theorem topoOrder_splits (distinct : (members.map Member.service).Nodup)
    : (∀ fuel, members.length ≤ fuel →
          topoLoop members fuel [] [] members = topoOrder members)
      ∧ ∃ placed stuck, SplitsAtCycles members placed stuck := by
  refine ⟨fun fuel enough => topoLoop_terminates enough, ?_⟩
  refine ⟨Stages.below (depth members) members.length members,
    members.filter (fun m => depth members m == members.length), ?_, topoOrder_perm members,
    List.filter_sublist, ?_, ?_⟩
  · rw [topoOrder_eq, Stages.inStages_eq]
  · intro m member
    rw [List.mem_filter, beq_iff_eq, depth_eq_iff le_rfl, ← not_placeable_iff distinct member]
    simp [member]
  · intro before m after split other otherIn depends
    have ranks := Stages.pairwise_below (depth members) members.length members
    have mPlaced : m ∈ Stages.below (depth members) members.length members := by
      rw [split]
      exact List.mem_append_right _ List.mem_cons_self
    have deep := (Stages.mem_below.mp mPlaced).2
    have less := depth_lt_of_dependsOn distinct deep otherIn depends
    have otherPlaced := Stages.mem_below.mpr ⟨otherIn, less.trans deep⟩
    rw [split] at ranks otherPlaced
    obtain ⟨_, fromM, _⟩ := List.pairwise_append.mp ranks
    rcases List.mem_append.mp otherPlaced with first | notFirst
    · exact first
    · rcases List.mem_cons.mp notFirst with rfl | later
      · exact absurd less (lt_irrefl _)
      · exact absurd (List.rel_of_pairwise_cons fromM later) (Nat.not_le.mpr less)

end Distinct

/-- Two services that need each other, one that needs them, one that needs itself, and an app
with a database and a dependency outside the stack.
-/
def tangledStack : List Member :=
  let member (service : String) (needs : List String) : Member :=
    {
      id := service.toList, service := service.toList
      deps := needs.map (fun need => { service := need.toList, condition := .started })
    }
  [member "ping" ["pong"], member "app" ["db", "elsewhere"], member "pong" ["ping"],
    member "watch" ["app", "pong"], member "loop" ["loop"], member "db" []]

example
    : (topoOrder tangledStack).map (fun m => String.ofList m.service)
      = ["db", "app", "ping", "pong", "watch", "loop"] := by
  decide

theorem tangledStack_splits
    : (∀ fuel, 6 ≤ fuel → topoLoop tangledStack fuel [] [] tangledStack = topoOrder tangledStack)
      ∧ ∃ placed stuck, SplitsAtCycles tangledStack placed stuck := by
  have distinct : (tangledStack.map Member.service).Nodup := by decide
  exact topoOrder_splits distinct

end DockDoe
