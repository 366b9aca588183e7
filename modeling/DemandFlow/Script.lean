/-
  Scripts: steps that are taken one after the other, each of which ends with a report.
-/

namespace DemandFlow

/-- The reports of the steps of a script. -/
def reportsOf {σ τ ρ : Type} (step : σ → τ → σ × ρ) (s : σ) : List τ → List ρ
  | [] => []
  | t :: rest => (step s t).2 :: reportsOf step (step s t).1 rest

/-- Each step has its report. -/
theorem length_reportsOf {σ τ ρ : Type} (step : σ → τ → σ × ρ) (s : σ) (steps : List τ) :
    (reportsOf step s steps).length = steps.length := by
  induction steps generalizing s with
  | nil => rfl
  | cons t rest ih => exact congrArg (· + 1) (ih (step s t).1)

end DemandFlow
