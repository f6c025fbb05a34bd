/-
**Systems that move on events.**

A system is a function that takes a state and an event to the next state, if the event can happen
there.  Its runs are the lists of events that can happen one after the other, so that a statement
about all runs is a statement about every order in which the events of several parties can come.
Nothing here mentions any particular system.

Main definitions:

* `Transitions.run` — the state after a list of events.

Main results:

* `Transitions.run_append` — a run goes on where it stopped;
* `Transitions.run_induction` — what holds at the start and is kept by every event, given the events
  before it, holds after every run.
-/

import Mathlib.Data.List.Induction
import Mathlib.Tactic.Common

set_option relaxedAutoImplicit false
set_option autoImplicit false

namespace Transitions

variable {State Event : Type} (step : State → Event → Option State)

/-- The state after a list of events, if all of them can happen. -/
def run (s : State) : List Event → Option State
  | [] => some s
  | e :: events => (step s e).bind fun s' => run s' events

variable {step} {s s' : State} {events : List Event}

@[simp] theorem run_nil : run step s [] = some s := rfl

theorem run_append (events' : List Event) :
    run step s (events ++ events') = (run step s events).bind fun s' => run step s' events' := by
  induction events generalizing s with
  | nil => rfl
  | cons e events ih =>
      rw [List.cons_append, run, run]
      cases step s e with
      | none => rfl
      | some s₁ => exact ih

/-- The last event of a run. -/
theorem run_concat {e : Event} : run step s (events ++ [e]) = some s' ↔
    ∃ s₁, run step s events = some s₁ ∧ step s₁ e = some s' := by
  rw [run_append, Option.bind_eq_some_iff]
  simp only [run, Option.bind_fun_some]

/-- **Induction along a run**: the events before a step may be used. -/
theorem run_induction {P : List Event → State → Prop} (hstart : P [] s)
    (hstep : ∀ events s₁ e s₂, run step s events = some s₁ → P events s₁ → step s₁ e = some s₂ →
      P (events ++ [e]) s₂) :
    ∀ {events : List Event} {s' : State}, run step s events = some s' → P events s' := by
  intro events
  induction events using List.reverseRecOn with
  | nil =>
      intro s' h
      rw [← Option.some.inj h]
      exact hstart
  | append_singleton events e ih =>
      intro s' h
      obtain ⟨s₁, hrun, hlast⟩ := run_concat.1 h
      exact hstep events s₁ e s' hrun (ih hrun) hlast

end Transitions
