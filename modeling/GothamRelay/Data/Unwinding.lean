import Mathlib.Logic.Basic

namespace GothamRelay.Data

/-! Noninterference of a deterministic machine with outputs, by unwinding.
Inputs on the right are those whose presence must not be felt. -/

def outputs (step : σ → ι → ω × σ) : σ → List ι → List ω
  | _, [] => []
  | state, input :: inputs =>
      let stepped := step state input
      stepped.1 :: outputs step stepped.2 inputs

/-- The state that a list of inputs leads to. -/
def settled (step : σ → ι → ω × σ) : σ → List ι → σ
  | state, [] => state
  | state, input :: inputs => settled step (step state input).2 inputs

theorem settled_concat (step : σ → ι → ω × σ) (state : σ) (inputs : List ι)
    (input : ι) :
    settled step state (inputs ++ [input]) =
      (step (settled step state inputs) input).2 := by
  induction inputs generalizing state with
  | nil => rfl
  | cons first inputs ih => exact ih (step state first).2

theorem outputs_concat (step : σ → ι → ω × σ) (state : σ) (inputs : List ι)
    (input : ι) :
    outputs step state (inputs ++ [input]) =
      outputs step state inputs ++
        [(step (settled step state inputs) input).1] := by
  induction inputs generalizing state with
  | nil => rfl
  | cons first inputs ih =>
      exact congrArg ((step state first).1 :: ·) (ih (step state first).2)

def merged (traffic : List (ι ⊕ ι)) : List ι :=
  traffic.map (Sum.elim id id)

def purge (traffic : List (ι ⊕ ι)) : List ι :=
  traffic.filterMap Sum.getLeft?

/-- The outputs, in order, that answer the inputs on the left. -/
def observed : List (ι ⊕ ι) → List ω → List ω
  | .inl _ :: traffic, output :: outputs => output :: observed traffic outputs
  | .inr _ :: traffic, _ :: outputs => observed traffic outputs
  | _, _ => []

structure Unwinding (step : σ → ι → ω × σ) (silent : ι → Prop)
    (related : σ → σ → Prop) : Prop where
  respects : ∀ {first second : σ} (input : ι), related first second →
    (step first input).1 = (step second input).1 ∧
      related (step first input).2 (step second input).2
  ignores : ∀ {first second : σ} {input : ι}, related first second →
    silent input → related (step first input).2 second

theorem Unwinding.observed_eq {step : σ → ι → ω × σ} {silent : ι → Prop}
    {related : σ → σ → Prop} (unwinding : Unwinding step silent related)
    {first second : σ} (traffic : List (ι ⊕ ι))
    (start : related first second)
    (inserted : ∀ input, .inr input ∈ traffic → silent input) :
    observed traffic (outputs step first (merged traffic)) =
      outputs step second (purge traffic) := by
  induction traffic generalizing first second with
  | nil => rfl
  | cons head traffic ih =>
      have rest : ∀ input, .inr input ∈ traffic → silent input :=
        fun input member => inserted input (List.mem_cons_of_mem _ member)
      cases head with
      | inl input =>
          obtain ⟨same, next⟩ := unwinding.respects input start
          exact congrArg₂ List.cons same (ih next rest)
      | inr input =>
          have quiet := inserted input List.mem_cons_self
          exact ih (unwinding.ignores start quiet) rest

end GothamRelay.Data
