import Mathlib

/-! Labelled transition systems and their finite runs. -/

namespace Transition

universe u v w

variable {State : Type u} {Event : Type v} {step : State → Event → State → Prop}

/-- A finite run with the events it performed, oldest first. -/
inductive Run (step : State → Event → State → Prop) : State → List Event → State → Prop where
  | start (state : State) : Run step state [] state
  | next {first middle last : State} {events : List Event} {event : Event}
      (earlier : Run step first events middle) (taken : step middle event last) :
      Run step first (events ++ [event]) last

variable {first middle last : State} {events later : List Event}

theorem Run.append (run : Run step first events middle) (rest : Run step middle later last) :
    Run step first (events ++ later) last := by
  induction rest with
  | start => simpa using run
  | next _ taken ih =>
    rw [← List.append_assoc]
    exact .next ih taken

/-- A run of a system is a run of every system with more steps. -/
theorem Run.mono {other : State → Event → State → Prop} (run : Run step first events last)
    (weaker : ∀ {state event next}, step state event next → other state event next) :
    Run other first events last := by
  induction run with
  | start => exact .start _
  | next _ taken ih => exact .next ih (weaker taken)

/-- What every step preserves relative to the events so far holds after a run. -/
theorem Run.history (holds : List Event → State → Prop) (run : Run step first events last)
    (initial : holds [] first)
    (preserved : ∀ {events state event next}, holds events state → step state event next →
      holds (events ++ [event]) next) : holds events last := by
  induction run with
  | start => exact initial
  | next _ taken ih => exact preserved ih taken

theorem Run.invariant (holds : State → Prop) (run : Run step first events last)
    (initial : holds first)
    (preserved : ∀ {state event next}, holds state → step state event next → holds next) :
    holds last :=
  run.history (fun _ state => holds state) initial fun kept taken => preserved kept taken

end Transition
