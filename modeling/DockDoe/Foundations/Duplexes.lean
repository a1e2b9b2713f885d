import Mathlib

/-! Duplex connections: items on their way in both directions, delivered in order until the
connection breaks. What was on its way then may get lost from behind, and nothing is taken up
anymore. A relay in front of a duplex is a duplex again.
-/

namespace Duplexes

variable {α : Type u} {β : Type v}

/-- What a client has sent up and what it has not been shown yet, the next to arrive in front. -/
@[ext] structure Duplex (α : Type u) (β : Type v) where
  up : List α
  down : List β
  intact : Bool

/-- The client sends and is shown items; the far end receives and answers. -/
inductive Event (α : Type u) (β : Type v)
  | sent (items : List α)
  | received (items : List α)
  | answered (items : List β)
  | shown (items : List β)

/-- The items of one kind of event, in the order of the events. -/
def sent (events : List (Event α β)) : List α :=
  events.flatMap (fun
    | .sent items => items
    | _ => [])

def received (events : List (Event α β)) : List α :=
  events.flatMap (fun
    | .received items => items
    | _ => [])

def answered (events : List (Event α β)) : List β :=
  events.flatMap (fun
    | .answered items => items
    | _ => [])

def shown (events : List (Event α β)) : List β :=
  events.flatMap (fun
    | .shown items => items
    | _ => [])

namespace Duplex

/-- What can happen without the client. -/
inductive Serves : Duplex α β → List (Event α β) → Duplex α β → Prop
  | stay (d : Duplex α β) : Serves d [] d
  | receive {d : Duplex α β} {items rest : List α} (next : d.up = items ++ rest)
    : Serves d [.received items] { d with up := rest }
  | answer {d : Duplex α β} (items : List β) (intact : d.intact = true)
    : Serves d [.answered items] { d with down := d.down ++ items }
  | answerInVain {d : Duplex α β} (items : List β) (broken : d.intact = false)
    : Serves d [.answered items] d
  | fail {d : Duplex α β} {up : List α} {down : List β} (upKept : up <+: d.up)
      (downKept : down <+: d.down)
    : Serves d [] { up, down, intact := false }

theorem Serves.unchanged {d e : Duplex α β} (same : e = d) : Serves d [] e :=
  same ▸ .stay d

/-- A broken connection may keep less of what was on its way. -/
theorem Serves.failing {d e : Duplex α β} (broken : e.intact = false) (upKept : e.up <+: d.up)
    (downKept : e.down <+: d.down)
    : Serves d [] e := by
  obtain ⟨up, down, intact⟩ := e
  obtain rfl : intact = false := broken
  exact .fail upKept downKept

/-- What can happen. -/
inductive Step : Duplex α β → List (Event α β) → Duplex α β → Prop
  | serve {d e : Duplex α β} {events : List (Event α β)} (serves : Serves d events e)
    : Step d events e
  | send {d : Duplex α β} (items : List α)
    : Step d [.sent items] { d with up := d.up ++ if d.intact then items else [] }
  | present {d : Duplex α β} {items rest : List β} (next : d.down = items ++ rest)
    : Step d [.shown items] { d with down := rest }

/-- Steps one after the other, with what happens in them. -/
inductive Run (d : Duplex α β) : List (Event α β) → Duplex α β → Prop
  | refl : Run d [] d
  | tail {e f : Duplex α β} {before events : List (Event α β)} (run : Run d before e)
      (step : Step e events f)
    : Run d (before ++ events) f

/-- Nothing on its way yet. -/
def opened : Duplex α β where
  up := []
  down := []
  intact := true

-----------------------------------------------------------------------------------------
-- Nothing overtakes, nothing is doubled, and only a broken connection loses
-----------------------------------------------------------------------------------------

/-- What was given has been taken, or is on its way, or has been lost behind that. While the
connection is intact, nothing has been lost.
-/
def Conserved {γ : Type w} (given taken onItsWay : List γ) (intact : Bool) : Prop :=
  ∃ lost, given = taken ++ onItsWay ++ lost ∧ (intact = true → lost = [])

section Conservation

variable {γ : Type w} {given taken onItsWay : List γ} {intact : Bool}

theorem Conserved.give (conserved : Conserved given taken onItsWay intact) (items : List γ)
    : Conserved (given ++ items) taken (onItsWay ++ if intact then items else []) intact := by
  obtain ⟨lost, balance, kept⟩ := conserved
  cases intact with
  | false => exact ⟨lost ++ items, by simp [balance], by simp⟩
  | true => exact ⟨[], by simp [balance, kept rfl], by simp⟩

theorem Conserved.take {items rest : List γ}
    (conserved : Conserved given taken (items ++ rest) intact)
    : Conserved given (taken ++ items) rest intact := by
  obtain ⟨lost, balance, kept⟩ := conserved
  exact ⟨lost, by simp [balance], kept⟩

theorem Conserved.lose (conserved : Conserved given taken onItsWay intact) {rest : List γ}
    (isPrefix : rest <+: onItsWay)
    : Conserved given taken rest false := by
  obtain ⟨lost, balance, -⟩ := conserved
  obtain ⟨dropped, rfl⟩ := isPrefix
  exact ⟨dropped ++ lost, by simp [balance], by simp⟩

/-- What has been taken is a prefix of what was given. -/
theorem Conserved.isPrefix (conserved : Conserved given taken onItsWay intact)
    : taken <+: given := by
  obtain ⟨lost, balance, -⟩ := conserved
  exact ⟨onItsWay ++ lost, by simp [balance]⟩

/-- All that was given has been taken once nothing is on its way and nothing got lost. -/
theorem Conserved.complete (conserved : Conserved given taken [] true) : taken = given := by
  obtain ⟨lost, balance, kept⟩ := conserved
  simp [balance, kept rfl]

end Conservation

/-- Both directions conserve their items. -/
structure Conserves (events : List (Event α β)) (d : Duplex α β) : Prop where
  up : Conserved (sent events) (received events) d.up d.intact
  down : Conserved (answered events) (shown events) d.down d.intact

/-- What serves a duplex conserves both directions: each case is a step of one of the two
channels.
-/
theorem Serves.conserves {before events : List (Event α β)} {d e : Duplex α β}
    (conserves : Conserves before d) (serves : Serves d events e)
    : Conserves (before ++ events) e := by
  obtain ⟨up, down⟩ := conserves
  cases serves with
  | stay => exact ⟨by simpa using up, by simpa using down⟩
  | receive next =>
      rw [next] at up
      exact ⟨by simpa [sent, received] using up.take, by simpa [answered, shown] using down⟩
  | answer items intact =>
      have given := down.give items
      rw [if_pos intact] at given
      exact ⟨by simpa [sent, received] using up, by simpa [answered, shown] using given⟩
  | answerInVain items broken =>
      have given := down.give items
      rw [if_neg (by simp [broken]), List.append_nil] at given
      exact ⟨by simpa [sent, received] using up, by simpa [answered, shown] using given⟩
  | fail upKept downKept =>
      exact ⟨by simpa using up.lose upKept, by simpa using down.lose downKept⟩

/-- Each step of a duplex conserves both directions, by cases on the step. -/
theorem Step.conserves {before events : List (Event α β)} {d e : Duplex α β}
    (conserves : Conserves before d) (step : Step d events e)
    : Conserves (before ++ events) e := by
  cases step with
  | serve serves => exact serves.conserves conserves
  | send items =>
      have given := conserves.up.give items
      exact ⟨by simpa [sent, received] using given,
        by simpa [answered, shown] using conserves.down⟩
  | present next =>
      have down := conserves.down
      rw [next] at down
      exact ⟨by simpa [sent, received] using conserves.up,
        by simpa [answered, shown] using down.take⟩

theorem Run.conserves {before events : List (Event α β)} {d e : Duplex α β}
    (conserves : Conserves before d) (run : Run d events e)
    : Conserves (before ++ events) e := by
  induction run with
  | refl => simpa using conserves
  | tail _ step ih => exact List.append_assoc _ _ _ ▸ step.conserves ih

theorem opened_conserves : Conserves [] (opened : Duplex α β) where
  up := ⟨[], rfl, by simp⟩
  down := ⟨[], rfl, by simp⟩

-----------------------------------------------------------------------------------------
-- Relays
-----------------------------------------------------------------------------------------

/-- A duplex behind a relay: what the relay and its client's connection hold comes before what
is further down and behind what is further up. A broken connection holds nothing anymore that
is still going to arrive at its far end.
-/
def relayed (d : Duplex α β) (up : List α) (down : List β) (connected : Bool) (held : List β)
    : Duplex α β where
  up := d.up ++ if d.intact then up else []
  down := down ++ if connected then held ++ d.down else []
  intact := connected && d.intact

/-- What happens in a duplex behind a relay happens in both together. By cases on the event; an
answer reaches the relay while it is connected and is in vain otherwise.
-/
theorem Serves.relayed {d e : Duplex α β} {events : List (Event α β)} (serves : Serves d events e)
    (up : List α) (down : List β) (connected : Bool) (held : List β)
    : Serves (d.relayed up down connected held) events (e.relayed up down connected held) := by
  cases serves with
  | stay => exact .stay _
  | receive next =>
      apply Serves.receive
      simp [Duplex.relayed, next]
  | answer items intact =>
      cases connected with
      | false => exact .answerInVain items rfl
      | true =>
          have step := Serves.answer (d := d.relayed up down true held) items (by
            simp [Duplex.relayed, intact])
          simpa [Duplex.relayed] using step
  | answerInVain items broken =>
      exact .answerInVain items (by simp [Duplex.relayed, broken])
  | fail upKept downKept =>
      apply Serves.failing (by simp [Duplex.relayed])
      · simpa [Duplex.relayed] using upKept.trans (List.prefix_append _ _)
      · apply (List.prefix_append_right_inj down).mpr
        cases connected with
        | false => exact List.prefix_refl _
        | true => exact (List.prefix_append_right_inj held).mpr downKept

end Duplex

end Duplexes
