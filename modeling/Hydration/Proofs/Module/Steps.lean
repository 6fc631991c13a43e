import Mathlib.Data.List.Basic

/-!
# Steps

A **machine** is given by what one step does: it takes a state and an input to an output
and the next state.  `steps` makes one step for each input.
-/

namespace Hydration

variable {State Input Output : Type} {step : State → Input → Output × State}

/-- The outputs of the steps for some inputs in turn, and the state after them. -/
def steps (step : State → Input → Output × State) (s : State) : List Input → List Output × State
  | [] => ([], s)
  | input :: inputs =>
    let (output, s) := step s input
    let (outputs, s) := steps step s inputs
    (output :: outputs, s)

theorem steps_cons (s : State) (input : Input) (inputs : List Input) :
    steps step s (input :: inputs) =
      ((step s input).1 :: (steps step (step s input).2 inputs).1,
        (steps step (step s input).2 inputs).2) :=
  rfl

theorem steps_append (s : State) (inputs rest : List Input) :
    steps step s (inputs ++ rest) =
      ((steps step s inputs).1 ++ (steps step (steps step s inputs).2 rest).1,
        (steps step (steps step s inputs).2 rest).2) := by
  induction inputs generalizing s with
  | nil => rfl
  | cons input inputs ih =>
    rw [List.cons_append, steps_cons, ih, steps_cons, List.cons_append]

theorem steps_concat (s : State) (inputs : List Input) (input : Input) :
    steps step s (inputs ++ [input]) =
      ((steps step s inputs).1 ++ [(step (steps step s inputs).2 input).1],
        (step (steps step s inputs).2 input).2) :=
  steps_append s inputs [input]

end Hydration
