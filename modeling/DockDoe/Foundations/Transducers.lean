import Mathlib

/-! Runs of a deterministic machine that answers every input with an output. -/

namespace Transducer

variable {σ : Type u} {α : Type v} {β : Type w}

/-- The state after a list of inputs. -/
def after (step : σ → α → σ × β) (start : σ) (inputs : List α) : σ :=
  inputs.foldl (fun state input => (step state input).1) start

/-- The answers to a list of inputs, in order. -/
def outputs (step : σ → α → σ × β) : σ → List α → List β
  | _, [] => []
  | state, input :: rest => (step state input).2 :: outputs step (step state input).1 rest

variable (step : σ → α → σ × β) (start : σ)

@[simp]
theorem after_cons (input : α) (rest : List α)
    : after step start (input :: rest) = after step (step start input).1 rest :=
  rfl

theorem after_append (left right : List α)
    : after step start (left ++ right) = after step (after step start left) right :=
  List.foldl_append

theorem outputs_append (left right : List α)
    : outputs step start (left ++ right)
      = outputs step start left ++ outputs step (after step start left) right := by
  induction left generalizing start with
  | nil => rfl
  | cons input rest ih =>
      simp only [List.cons_append, outputs, after_cons, ih]

@[simp]
theorem length_outputs (inputs : List α) : (outputs step start inputs).length = inputs.length := by
  induction inputs generalizing start with
  | nil => rfl
  | cons input rest ih => simp only [outputs, List.length_cons, ih]

/-- The answer at a position is that of the state reached by the inputs before it. -/
theorem getElem?_outputs (inputs : List α) (k : ℕ)
    : (outputs step start inputs)[k]?
      = inputs[k]?.map (fun input => (step (after step start (inputs.take k)) input).2) := by
  induction inputs generalizing start k with
  | nil => simp [outputs]
  | cons input rest ih =>
      cases k with
      | zero => rfl
      | succ k => simpa [outputs] using ih (step start input).1 k

/-- What holds at the start of a run and survives every further input holds of the state
and the answers of any run.
-/
theorem run_induction {motive : List α → σ → List β → Prop} (init : motive [] start [])
    (advance
      : ∀ inputs input,
        motive inputs (after step start inputs) (outputs step start inputs)
        → motive (inputs ++ [input]) (step (after step start inputs) input).1
            (outputs step start inputs ++ [(step (after step start inputs) input).2]))
    (inputs : List α)
    : motive inputs (after step start inputs) (outputs step start inputs) := by
  induction inputs using List.reverseRecOn with
  | nil => exact init
  | append_singleton inputs input ih =>
      have next := advance inputs input ih
      rw [after_append, outputs_append]
      exact next

/-- A property that one further input keeps exactly under a condition holds of every prefix of a
run exactly when every input meets the condition. By induction on the prefix from the back.
-/
theorem forall_prefix_iff {holds : List α → Prop} {fits : List α → α → Prop} {inputs : List α}
    (init : holds [])
    (advance
      : ∀ done next, done ++ [next] <+: inputs →
          holds done → (holds (done ++ [next]) ↔ fits done next))
    : (∀ done, done <+: inputs → holds done)
      ↔ ∀ done next, done ++ [next] <+: inputs → fits done next := by
  constructor
  · intro every done next within
    have earlier := every done ((List.prefix_append done [next]).trans within)
    exact (advance done next within earlier).mp (every _ within)
  · intro every done within
    induction done using List.reverseRecOn with
    | nil => exact init
    | append_singleton done next ih =>
        have earlier := ih ((List.prefix_append done [next]).trans within)
        exact (advance done next within earlier).mpr (every done next within)

end Transducer
