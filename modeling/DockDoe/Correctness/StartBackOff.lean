import DockDoe.Correctness.DependencyWaits

/-! When the passes over a stack back off.
A pass that started a container is followed by the next at once, in the hope that the
container lets others start. How often this can happen depends on whether the containers
that were started go on running.
-/

namespace DockDoe

open Traces

/-- What a pass shows of a member's turn. -/
inductive TurnEvent
  | found (m : Member) (running : Bool)
  | answered (id : Text) (started : Bool)
  deriving DecidableEq

def turnEvent : Event → Option TurnEvent
  | .step (.checked m running) => some (.found m running)
  | .applied .start id answer => some (.answered id answer.isOk)
  | _ => none

/-- The turns among some events, in order. -/
def turnEvents (events : List Event) : List TurnEvent :=
  events.filterMap turnEvent

/-- A pass after which the loop goes on. -/
structure Pass where
  events : List Event
  backsOff : Bool

/-- What a pass leaves in the trace, with the sleep after it. -/
def Pass.trace (pass : Pass) : List Event :=
  pass.events ++ if pass.backsOff then [.slept depPollMs] else []

/-- The next passes of `start_in_order`'s loop, all of which end with a failed start before
the deadline; none if the loop returns earlier.
-/
def nextPasses (endpoint : Endpoint) (members : List Member) (deadlineMs : ℕ)
    : ℕ → List Event → Option (List Pass)
  | 0, _ => some []
  | k + 1, events =>
      let run := (endpoint.startPass members).run events
      let pass : Pass :=
        { events := appended (endpoint.startPass members) events, backsOff := !run.1.2 }
      if run.1.1 = 0 ∨ endpoint.nowMs run.2 ≥ deadlineMs then
        none
      else
        (nextPasses endpoint members deadlineMs k (events ++ pass.trace)).map (pass :: ·)

/-- Among any `n + 1` consecutive passes over `n` members, one backs off. -/
def BacksOff (endpoint : Endpoint) (members : List Member) (deadlineMs : ℕ)
    (events : List Event)
    : Prop :=
  ∀ passes,
    nextPasses endpoint members deadlineMs (members.length + 1) events = some passes
    → ∃ pass ∈ passes, pass.backsOff = true

/-- No container that one of the passes starts is found stopped in a later one. -/
def StaysUp (passes : List Pass) : Prop :=
  passes.Pairwise (fun earlier later =>
    ∀ m : Member,
      .answered m.id true ∈ turnEvents earlier.events
      → .found m false ∉ turnEvents later.events)

section Turns

theorem skipsPolls_turnEvent : SkipsPolls turnEvent :=
  ⟨fun _ _ => rfl, fun _ => rfl⟩

/-- How a member's turn ends: it runs already, or its start succeeds or fails. -/
def shownTurn : Member × Option Bool → List TurnEvent
  | (m, none) => [.found m true]
  | (m, some started) => [.found m false, .answered m.id started]

/-- The failures so far and whether anything was started, after another turn. -/
def countTurn (tally : ℕ × Bool) : Member × Option Bool → ℕ × Bool
  | (_, none) => tally
  | (_, some true) => (tally.1, true)
  | (_, some false) => (tally.1 + 1, tally.2)

/-- A start waits without a turn's events, and then counts the endpoint's answer. The waits are
inspections, which are no events of a turn.
-/
theorem startStopped_run (endpoint : Endpoint) (members : List Member) (tally : ℕ × Bool)
    (m : Member) (trace : List Event)
    : ∃ waits,
        turnEvents waits = []
        ∧ (endpoint.startStopped members tally m).run trace
          = let answer := endpoint.lifecycle (trace ++ waits) .start m.id
            (countTurn tally (m, some answer.isOk),
              trace ++ waits ++ [.applied .start m.id answer]) := by
  have each (d : Dep) : Shows turnEvent (endpoint.awaitDep members d) [] := by
    have shows := awaitDep_shows skipsPolls_turnEvent endpoint members d
    have unseen : (awaited members d).bind (fun step => turnEvent (.step step)) = none := by
      apply Option.bind_eq_none_iff.mpr
      intro step wait
      obtain ⟨_, _, _, rfl⟩ := awaited_eq_some wait
      rfl
    rwa [unseen] at shows
  have loop := shows_forM each m.deps
  have waited := Ensures.appended loop trace
  refine ⟨appended (forM m.deps (endpoint.awaitDep members)) trace ++ [.step (.starting m)],
    ?_, ?_⟩
  · rw [turnEvents, List.filterMap_append, waited]
    simp [turnEvent]
  · rw [← List.append_assoc, ← Ensures.run_eq loop trace]
    unfold Endpoint.startStopped
    rw [run_bind]
    generalize ((forM m.deps (endpoint.awaitDep members)).run trace).2 = waited
    rw [run_bind, record_run, run_bind, apply_run]
    cases endpoint.lifecycle (waited ++ [.step (.starting m)]) .start m.id with
    | ok => rfl
    | error => rfl

/-- A member's turn finds it running or not, and then starts it if it was not. -/
theorem startMember_run (endpoint : Endpoint) (members : List Member) (tally : ℕ × Bool)
    (m : Member) (trace : List Event)
    : let running := ((endpoint.isRunning m.id).run trace).1
      ∃ looks,
        turnEvents looks = [.found m running]
        ∧ (endpoint.startMember members tally m).run trace
          = if running then (tally, trace ++ looks)
            else
              let answer := endpoint.lifecycle (trace ++ looks) .start m.id
              (countTurn tally (m, some answer.isOk),
                trace ++ looks ++ [.applied .start m.id answer]) := by
  intro running
  have checks := isRunning_silent skipsPolls_turnEvent endpoint m.id
  have silent : turnEvents (appended (endpoint.isRunning m.id) trace) = [] :=
    Ensures.appended checks trace
  have grown := Ensures.run_eq checks trace
  have run
      : (endpoint.startMember members tally m).run trace
        = (if running then return tally else endpoint.startStopped members tally m).run
            (trace
              ++ (appended (endpoint.isRunning m.id) trace ++ [.step (.checked m running)])) := by
    unfold Endpoint.startMember
    rw [run_bind, run_bind, record_run, grown, List.append_assoc]
  rw [run]
  clear_value running
  have found (waits : List Event) (waiting : turnEvents waits = [])
      : turnEvents
          (appended (endpoint.isRunning m.id) trace ++ [.step (.checked m running)] ++ waits)
        = [.found m running] := by
    rw [turnEvents, List.filterMap_append, List.filterMap_append]
    change turnEvents _ ++ _ ++ turnEvents _ = _
    rw [silent, waiting]
    rfl
  cases running with
  | true =>
      refine ⟨_, found [] rfl, ?_⟩
      rw [List.append_nil]
      rfl
  | false =>
      obtain ⟨waits, waiting, stopped⟩ :=
        startStopped_run endpoint members tally m
          (trace ++ (appended (endpoint.isRunning m.id) trace ++ [.step (.checked m false)]))
      refine ⟨_, found waits waiting, ?_⟩
      simpa only [List.append_assoc, Bool.false_eq_true, if_false] using stopped

/-- A turn shows what it found and, for a stopped member, counts how the start ended; by cases on
what `startMember_run` found.
-/
theorem startMember_turn (endpoint : Endpoint) (members : List Member) (tally : ℕ × Bool)
    (m : Member)
    : Ensures (endpoint.startMember members tally m) (fun answer added =>
        ∃ started,
          turnEvents added = shownTurn (m, started) ∧ answer = countTurn tally (m, started)) := by
  intro trace
  obtain ⟨looks, found, run⟩ := startMember_run endpoint members tally m trace
  cases running : ((endpoint.isRunning m.id).run trace).1 with
  | true =>
      rw [running, if_pos rfl] at run
      rw [running] at found
      rw [run]
      exact ⟨looks, rfl, none, found, rfl⟩
  | false =>
      rw [running, if_neg Bool.false_ne_true] at run
      rw [running] at found
      rw [run]
      refine ⟨looks ++ [.applied .start m.id (endpoint.lifecycle (trace ++ looks) .start m.id)],
        List.append_assoc _ _ _, _, ?_, rfl⟩
      rw [turnEvents, List.filterMap_append]
      change turnEvents looks ++ _ = _
      rw [found]
      rfl

/-- A pass takes the members in turn and counts how their turns end. The invariant of the loop
lists the turns taken so far.
-/
theorem startPass_counts (endpoint : Endpoint) (members : List Member)
    : Ensures (endpoint.startPass members) (fun tally added =>
        ∃ turns : List (Member × Option Bool),
          turns.map Prod.fst = topoOrder members
          ∧ turnEvents added = turns.flatMap shownTurn
          ∧ tally = turns.foldl countTurn (0, false)) := by
  let inv (taken : List Member) (tally : ℕ × Bool) (added : List Event) : Prop :=
    ∃ turns : List (Member × Option Bool),
      turns.map Prod.fst = taken
      ∧ turnEvents added = turns.flatMap shownTurn
      ∧ tally = turns.foldl countTurn (0, false)
  have loop
      : Ensures ((topoOrder members).foldlM (endpoint.startMember members) (0, false))
          (inv (topoOrder members)) := by
    apply ensures_foldlM_invariant
    · intro taken m tally before h
      obtain ⟨turns, same, shown, counted⟩ := h
      apply (startMember_turn endpoint _ tally m).mono
      intro answer added h
      obtain ⟨started, shows, counts⟩ := h
      refine ⟨turns ++ [(m, started)], by simp [same], ?_, ?_⟩
      · rw [turnEvents, List.filterMap_append, List.flatMap_append, List.flatMap_singleton,
          ← shows, ← shown]
        rfl
      · rw [List.foldl_append, ← counted]
        exact counts
    · exact ⟨[], rfl, rfl, rfl⟩
  exact loop

/-- The failures of a pass are its turns that ended with one, by induction on the turns. -/
theorem counted_failures (turns : List (Member × Option Bool)) (tally : ℕ × Bool)
    : (turns.foldl countTurn tally).1
      = tally.1 + turns.countP (fun turn => turn.2 == some false) := by
  induction turns generalizing tally with
  | nil => rfl
  | cons turn rest ih =>
      obtain ⟨m, started⟩ := turn
      rw [List.foldl_cons, ih, List.countP_cons]
      cases started with
      | none => simp [countTurn]
      | some started => cases started <;> simp [countTurn]; omega

/-- A pass progresses when one of its turns did, by induction on the turns. -/
theorem counted_progress (turns : List (Member × Option Bool)) (tally : ℕ × Bool)
    : (turns.foldl countTurn tally).2
      = (tally.2 || turns.any (fun turn => turn.2 == some true)) := by
  induction turns generalizing tally with
  | nil => simp
  | cons turn rest ih =>
      obtain ⟨m, started⟩ := turn
      rw [List.foldl_cons, ih, List.any_cons]
      cases started with
      | none => simp [countTurn]
      | some started => cases started <;> simp [countTurn]

end Turns

/-- Items that can only pick different things are at most as many as there are to pick. By
induction on the items, each of which removes its pick.
-/
theorem length_le_of_picks {α β : Type} {picks : α → β → Prop} {items : List α} {whole : List β}
    (each : ∀ a ∈ items, ∃ b ∈ whole, picks a b)
    (apart : items.Pairwise (fun a other => ∀ b, picks a b → ¬ picks other b))
    : items.length ≤ whole.length := by
  classical
  induction items generalizing whole with
  | nil => exact Nat.zero_le _
  | cons a rest ih =>
      obtain ⟨b, member, picked⟩ := each a List.mem_cons_self
      obtain ⟨differs, apart⟩ := List.pairwise_cons.mp apart
      have fewer : rest.length ≤ (whole.erase b).length := by
        apply ih _ apart
        intro other inRest
        obtain ⟨c, inWhole, pickedC⟩ := each other (List.mem_cons_of_mem a inRest)
        refine ⟨c, (List.mem_erase_of_ne ?_).mpr inWhole, pickedC⟩
        rintro rfl
        exact differs other inRest c picked pickedC
      rw [List.length_erase_of_mem member] at fewer
      have := List.length_pos_of_mem member
      rw [List.length_cons]
      omega

section Passes

variable {endpoint : Endpoint} {members : List Member} {deadlineMs k : ℕ} {events : List Event}
  {passes : List Pass}

/-- The first of the next passes fails in time, and the others follow it. -/
theorem nextPasses_succ (goOn : nextPasses endpoint members deadlineMs (k + 1) events = some passes)
    : ∃ rest,
        let run := (endpoint.startPass members).run events
        let pass : Pass :=
          { events := appended (endpoint.startPass members) events, backsOff := !run.1.2 }
        (run.1.1 ≠ 0 ∧ endpoint.nowMs run.2 < deadlineMs)
        ∧ nextPasses endpoint members deadlineMs k (events ++ pass.trace) = some rest
        ∧ passes = pass :: rest := by
  by_cases ends
      : ((endpoint.startPass members).run events).1.1 = 0
        ∨ endpoint.nowMs ((endpoint.startPass members).run events).2 ≥ deadlineMs
  · simp only [nextPasses, if_pos ends] at goOn
    cases goOn
  · simp only [nextPasses, if_neg ends] at goOn
    obtain ⟨rest, others, same⟩ := Option.map_eq_some_iff.mp goOn
    rw [not_or, not_le] at ends
    exact ⟨rest, ends, others, same.symm⟩

theorem length_nextPasses (goOn : nextPasses endpoint members deadlineMs k events = some passes)
    : passes.length = k := by
  induction k generalizing events passes with
  | zero => cases goOn; rfl
  | succ k ih =>
      obtain ⟨rest, _, others, rfl⟩ := nextPasses_succ goOn
      rw [List.length_cons, ih others]

/-- The loop runs its next passes and then goes on, by induction on the passes. -/
theorem startPasses_run (goOn : nextPasses endpoint members deadlineMs k events = some passes)
    (fuel : ℕ)
    : (endpoint.startPasses members deadlineMs (k + fuel)).run events
      = (endpoint.startPasses members deadlineMs fuel).run
          (events ++ passes.flatMap Pass.trace) := by
  induction k generalizing events passes with
  | zero =>
      cases goOn
      simp
  | succ k ih =>
      obtain ⟨rest, ⟨failed, early⟩, others, rfl⟩ := nextPasses_succ goOn
      rw [List.flatMap_cons, ← List.append_assoc, ← ih others, Nat.add_right_comm,
        Endpoint.startPasses, run_bind]
      have grown := (startPass_counts endpoint members).run_eq events
      rcases run : (endpoint.startPass members).run events with ⟨⟨failures, progressed⟩, after⟩
      rw [run] at failed early grown
      simp only [Pass.trace]
      rw [if_neg failed, run_bind, now_run, if_neg (not_le.mpr early)]
      cases progressed with
      | true => rw [if_neg (by decide), if_neg (by decide), List.append_nil, ← grown]
      | false =>
          rw [if_pos (by decide), if_pos (by decide), ← List.append_assoc, ← grown, run_bind,
            record_run]

/-- A pass that progresses starts a member that it found stopped, since progress is only counted
there.
-/
theorem startPass_progress (progress : ((endpoint.startPass members).run events).1.2 = true)
    : ∃ m ∈ members,
        .found m false ∈ turnEvents (appended (endpoint.startPass members) events)
        ∧ .answered m.id true ∈ turnEvents (appended (endpoint.startPass members) events) := by
  obtain ⟨turns, taken, shown, counted⟩ := (startPass_counts endpoint members).appended events
  rw [counted, counted_progress, Bool.false_or, List.any_eq_true] at progress
  obtain ⟨⟨m, _⟩, turn, started⟩ := progress
  cases beq_iff_eq.mp started
  refine ⟨m, ?_, ?_, ?_⟩
  · apply (topoOrder_perm members).mem_iff.mp
    rw [← taken]
    exact List.mem_map_of_mem turn
  · rw [shown]
    exact List.mem_flatMap.mpr ⟨_, turn, by simp [shownTurn]⟩
  · rw [shown]
    exact List.mem_flatMap.mpr ⟨_, turn, by simp [shownTurn]⟩

/-- A pass that does not back off has started a member, by induction on the passes before it. -/
theorem started_of_not_backsOff
    (goOn : nextPasses endpoint members deadlineMs k events = some passes)
    {pass : Pass} (member : pass ∈ passes) (atOnce : pass.backsOff ≠ true)
    : ∃ m ∈ members,
        .found m false ∈ turnEvents pass.events
        ∧ .answered m.id true ∈ turnEvents pass.events := by
  induction k generalizing events passes with
  | zero => cases goOn; cases member
  | succ k ih =>
      obtain ⟨rest, _, others, rfl⟩ := nextPasses_succ goOn
      rcases List.mem_cons.mp member with rfl | later
      · exact startPass_progress (by simpa using atOnce)
      · exact ih others later

/-- While no container that was started is found stopped again, the loop backs off.
Witness: passes that go on at once have started different containers.
-/
theorem backsOff_of_staysUp
    (goOn : nextPasses endpoint members deadlineMs (members.length + 1) events = some passes)
    (staysUp : StaysUp passes)
    : ∃ pass ∈ passes, pass.backsOff = true := by
  by_contra never
  push Not at never
  let starts (pass : Pass) (id : Text) : Prop :=
    .answered id true ∈ turnEvents pass.events
    ∧ ∃ m : Member, m.id = id ∧ .found m false ∈ turnEvents pass.events
  have few : passes.length ≤ (members.map Member.id).length := by
    have each : ∀ pass ∈ passes, ∃ id ∈ members.map Member.id, starts pass id := by
      intro pass member
      obtain ⟨m, inStack, found, started⟩ :=
        started_of_not_backsOff goOn member (never pass member)
      exact ⟨m.id, List.mem_map_of_mem inStack, started, m, rfl, found⟩
    apply length_le_of_picks each
    · apply staysUp.imp
      intro earlier later up id h₁ h₂
      obtain ⟨started, _⟩ := h₁
      obtain ⟨_, m, same, found⟩ := h₂
      exact up m (same ▸ started) found
  rw [length_nextPasses goOn, List.length_map] at few
  omega

/-- A single member either starts or fails, so a failing pass backs off. -/
theorem backsOff_of_length_le_one (few : members.length ≤ 1)
    (goOn : nextPasses endpoint members deadlineMs (members.length + 1) events = some passes)
    : ∃ pass ∈ passes, pass.backsOff = true := by
  obtain ⟨rest, ⟨failed, _⟩, _, rfl⟩ := nextPasses_succ goOn
  refine ⟨_, List.mem_cons_self, ?_⟩
  obtain ⟨turns, taken, _, counted⟩ := (startPass_counts endpoint members).appended events
  have short : turns.length ≤ 1 := by
    rw [← List.length_map Prod.fst, taken, (topoOrder_perm members).length_eq]
    exact few
  rw [counted, counted_failures, Nat.zero_add, Nat.ne_zero_iff_zero_lt, List.countP_pos_iff]
    at failed
  obtain ⟨turn, member, fails⟩ := failed
  obtain ⟨_, rfl⟩ := List.length_eq_one_iff.mp (short.antisymm (List.length_pos_of_mem member))
  cases List.mem_singleton.mp member
  rw [Bool.not_eq_true', counted, counted_progress, Bool.false_or, List.any_cons, List.any_nil,
    Bool.or_false, beq_iff_eq.mp fails]
  rfl

end Passes

section Flaky

/-- How many starts were answered. -/
def answers (events : List Event) : ℕ :=
  (turnEvents events).countP (fun
    | .answered _ _ => true
    | .found _ _ => false)

/-- An endpoint at which nothing is found running, and every second start fails. -/
def flakyEndpoint : Endpoint :=
  { downEndpoint with
    lifecycle := fun events _ _ =>
      if answers events % 2 = 0 then .ok () else .error (.other []) }

theorem answers_append (events added : List Event)
    : answers (events ++ added) = answers events + answers added := by
  rw [answers, turnEvents, List.filterMap_append, List.countP_append]
  rfl

/-- A turn at the flaky endpoint succeeds and fails by the number of starts before it. -/
theorem startMember_flaky (members : List Member) (tally : ℕ × Bool) (m : Member)
    (trace : List Event)
    : ((flakyEndpoint.startMember members tally m).run trace).1
        = countTurn tally (m, some (answers trace % 2 == 0))
      ∧ answers ((flakyEndpoint.startMember members tally m).run trace).2 = answers trace + 1 := by
  obtain ⟨looks, found, run⟩ := startMember_run flakyEndpoint members tally m trace
  have stopped : ((flakyEndpoint.isRunning m.id).run trace).1 = false := rfl
  rw [stopped] at found
  rw [stopped, if_neg Bool.false_ne_true] at run
  have same : answers (trace ++ looks) = answers trace := by
    rw [answers_append, answers.eq_1 looks, found]
    rfl
  rw [run]
  constructor
  · simp only [flakyEndpoint, same]
    split
    next even => rw [beq_iff_eq.mpr even]; rfl
    next odd => rw [beq_eq_false_iff_ne.mpr odd]; rfl
  · rw [answers_append, same]
    rfl

/-- Further turns take back neither failures nor progress. Both are an invariant of the loop. -/
theorem foldlM_startMember_grows (endpoint : Endpoint) (members rest : List Member)
    (tally : ℕ × Bool)
    : Ensures (rest.foldlM (endpoint.startMember members) tally) (fun answer _ =>
        tally.1 ≤ answer.1 ∧ (tally.2 = true → answer.2 = true)) := by
  let inv (_ : List Member) (answer : ℕ × Bool) (_ : List Event) : Prop :=
    tally.1 ≤ answer.1 ∧ (tally.2 = true → answer.2 = true)
  have loop : Ensures (rest.foldlM (endpoint.startMember members) tally) (inv rest) := by
    apply ensures_foldlM_invariant
    · intro _ m before _ h
      obtain ⟨failures, progress⟩ := h
      apply (startMember_turn endpoint members before m).mono
      rintro _ _ ⟨started, _, rfl⟩
      cases started with
      | none => exact ⟨failures, progress⟩
      | some started =>
          cases started with
          | false => exact ⟨Nat.le_succ_of_le failures, progress⟩
          | true => exact ⟨failures, fun _ => rfl⟩
    · exact ⟨le_rfl, id⟩
  exact loop

/-- Of two starts in a row, one succeeds and one fails, by the parity of the starts before. -/
theorem startMember_twice (members : List Member) (first second : Member) (trace : List Event)
    : let once := (flakyEndpoint.startMember members (0, false) first).run trace
      ((flakyEndpoint.startMember members once.1 second).run once.2).1 = (1, true) := by
  intro once
  obtain ⟨counted, grown⟩ := startMember_flaky members (0, false) first trace
  rw [(startMember_flaky members once.1 second once.2).1, grown, counted]
  rcases Nat.mod_two_eq_zero_or_one (answers trace) with even | odd
  · have next : (answers trace + 1) % 2 = 1 := by omega
    rw [even, next]
    rfl
  · have next : (answers trace + 1) % 2 = 0 := by omega
    rw [odd, next]
    rfl

/-- A pass over two members or more both fails and progresses at the flaky endpoint: its first
two turns do, and the others take nothing back.
-/
theorem startPass_flaky {members : List Member} (several : 1 < members.length) (events : List Event)
    : ((flakyEndpoint.startPass members).run events).1.1 ≠ 0
      ∧ ((flakyEndpoint.startPass members).run events).1.2 = true := by
  have ordered := (topoOrder_perm members).length_eq
  unfold Endpoint.startPass
  rcases order : topoOrder members with _ | ⟨first, _ | ⟨second, rest⟩⟩
  · rw [order, List.length_nil] at ordered
    omega
  · rw [order, List.length_singleton] at ordered
    omega
  rw [List.foldlM_cons, run_bind, List.foldlM_cons, run_bind,
    startMember_twice members first second]
  generalize ((flakyEndpoint.startMember members _ second).run _).2 = trace
  obtain ⟨_, _, failures, progress⟩ :=
    foldlM_startMember_grows flakyEndpoint members rest (1, true) trace
  exact ⟨Nat.ne_zero_of_lt failures, progress rfl⟩

/-- The flaky endpoint is asked again and again at once. By induction on the passes, each of
which fails and progresses before the deadline.
-/
theorem nextPasses_flaky {members : List Member} (several : 1 < members.length) (k : ℕ)
    (events : List Event)
    : ∃ passes,
        nextPasses flakyEndpoint members stackStartTimeoutMs k events = some passes
        ∧ ∀ pass ∈ passes, pass.backsOff = false := by
  induction k generalizing events with
  | zero => exact ⟨[], rfl, fun _ member => absurd member List.not_mem_nil⟩
  | succ k ih =>
      obtain ⟨failed, progressed⟩ := startPass_flaky several events
      let pass : Pass :=
        { events := appended (flakyEndpoint.startPass members) events, backsOff := false }
      obtain ⟨rest, others, atOnce⟩ := ih (events ++ pass.trace)
      have goesOn
          : ¬ (((flakyEndpoint.startPass members).run events).1.1 = 0
            ∨ flakyEndpoint.nowMs ((flakyEndpoint.startPass members).run events).2
              ≥ stackStartTimeoutMs) := by
        rw [not_or, not_le]
        exact ⟨failed, show 0 < stackStartTimeoutMs by decide⟩
      refine ⟨pass :: rest, ?_, ?_⟩
      · simp only [nextPasses, if_neg goesOn, progressed, Bool.not_true]
        rw [others]
        rfl
      · rintro other (_ | ⟨_, later⟩)
        · rfl
        · exact atOnce other later

end Flaky

/-- Among any `n + 1` passes one backs off, whatever the endpoint, exactly when the stack has
at most one member; in a larger stack one does while no container that was started is found
stopped again.
Witness: an endpoint at which every second start fails, while nothing goes on running.
-/
theorem backsOff_iff (members : List Member)
    : ((∀ (endpoint : Endpoint) (deadlineMs : ℕ) (events : List Event),
          BacksOff endpoint members deadlineMs events)
        ↔ members.length ≤ 1)
      ∧ ∀ (endpoint : Endpoint) (deadlineMs : ℕ) (events : List Event) (passes : List Pass),
          nextPasses endpoint members deadlineMs (members.length + 1) events = some passes
          → StaysUp passes
          → ∃ pass ∈ passes, pass.backsOff = true := by
  refine ⟨⟨fun every => ?_, fun few endpoint deadlineMs events passes goOn => ?_⟩, ?_⟩
  · by_contra several
    obtain ⟨passes, goOn, atOnce⟩ :=
      nextPasses_flaky (not_le.mp several) (members.length + 1) []
    obtain ⟨pass, member, backsOff⟩ := every flakyEndpoint stackStartTimeoutMs [] passes goOn
    rw [atOnce pass member] at backsOff
    cases backsOff
  · exact backsOff_of_length_le_one few goOn
  · intro endpoint deadlineMs events passes goOn staysUp
    exact backsOff_of_staysUp goOn staysUp

section CrashLoop

/-- An endpoint where one container exits at once after each start, and nothing else can be
started.
-/
def crashLoop : Endpoint :=
  { downEndpoint with
    lifecycle := fun _ _ id =>
      if id = "web".toList then .ok () else .error (.dockerResponseServerError 500 []) }

/-- A crashing container and one whose port is taken. -/
def crashingStack : List Member :=
  [{ id := "web".toList, service := "web".toList, deps := [] },
    { id := "db".toList, service := "db".toList, deps := [] }]

def isSleep : Event → Bool
  | .slept _ => true
  | _ => false

/-- Three passes over two members follow one another without a sleep: the loop has run them,
goes on, and has not slept.
-/
theorem crashingStack_spins
    : ¬ BacksOff crashLoop crashingStack (crashLoop.nowMs [] + stackStartTimeoutMs) []
      ∧ ∃ events : List Event,
          events.any isSleep = false
          ∧ ∀ fuel,
              (crashLoop.startInOrder (3 + fuel) crashingStack).run []
              = (crashLoop.startPasses crashingStack (crashLoop.nowMs [] + stackStartTimeoutMs)
                  fuel).run events := by
  have spins
      : (nextPasses crashLoop crashingStack (crashLoop.nowMs [] + stackStartTimeoutMs) 3 []).map
          (fun passes =>
            (passes.map Pass.backsOff, (passes.flatMap Pass.trace).any isSleep))
        = some ([false, false, false], false) := by
    decide
  obtain ⟨passes, goOn, shown⟩ := Option.map_eq_some_iff.mp spins
  obtain ⟨atOnce, awake⟩ := Prod.mk.inj shown
  constructor
  · intro backsOff
    obtain ⟨pass, member, backs⟩ := backsOff passes goOn
    have flag := List.mem_map_of_mem (f := Pass.backsOff) member
    rw [atOnce, backs] at flag
    exact absurd flag (by decide)
  · refine ⟨passes.flatMap Pass.trace, awake, fun fuel => ?_⟩
    rw [Endpoint.startInOrder, run_bind, now_run]
    exact startPasses_run goOn fuel

end CrashLoop

end DockDoe
