import Mathlib.Data.List.Forall2
import Mathlib.Logic.Function.Iterate

/-!
# Machines that answer calls

A machine answers every call and moves on, whatever the answer was. `Simulates`
is what one call has to satisfy for two machines to be told apart by no list of
calls; `run_simulates` is the induction.
-/

namespace PipelineBench.Machine

variable {ο ρ ρ' σ τ : Type*}

/-- The answers to a list of calls. -/
def answers (step : σ → ο → ρ × σ) : σ → List ο → List ρ
  | _, [] => []
  | s, o :: os => (step s o).1 :: answers step (step s o).2 os

/-- The state a list of calls leaves. -/
def after (step : σ → ο → ρ × σ) : σ → List ο → σ
  | s, [] => s
  | s, o :: os => after step (step s o).2 os

theorem answers_append (step : σ → ο → ρ × σ) (s : σ) (os os' : List ο) :
    answers step s (os ++ os') = answers step s os ++ answers step (after step s os) os' := by
  induction os generalizing s with
  | nil => rfl
  | cons o os ih => exact congrArg _ (ih _)

theorem after_append (step : σ → ο → ρ × σ) (s : σ) (os os' : List ο) :
    after step s (os ++ os') = after step (after step s os) os' := by
  induction os generalizing s with
  | nil => rfl
  | cons o os ih => exact ih _

/-- The same call over and over. -/
theorem after_replicate (step : σ → ο → ρ × σ) (s : σ) (o : ο) (n : ℕ) :
    after step s (List.replicate n o) = (fun s => (step s o).2)^[n] s := by
  induction n generalizing s with
  | zero => rfl
  | succ n ih => exact ih _

/-- Related states give related answers to every call, and stay related. -/
def Simulates (step : σ → ο → ρ × σ) (step' : τ → ο → ρ' × τ) (R : σ → τ → Prop)
    (A : ρ → ρ' → Prop) : Prop :=
  ∀ s t o, R s t → A (step s o).1 (step' t o).1 ∧ R (step s o).2 (step' t o).2

variable {step : σ → ο → ρ × σ} {step' : τ → ο → ρ' × τ} {R : σ → τ → Prop} {A : ρ → ρ' → Prop}

theorem run_simulates (hsim : Simulates step step' R A) {s : σ} {t : τ} (hst : R s t)
    (os : List ο) :
    List.Forall₂ A (answers step s os) (answers step' t os) ∧
      R (after step s os) (after step' t os) := by
  induction os generalizing s t with
  | nil => exact ⟨.nil, hst⟩
  | cons o os ih =>
      rcases hsim s t o hst with ⟨hanswer, hnext⟩
      rcases ih hnext with ⟨hrest, hend⟩
      exact ⟨.cons hanswer hrest, hend⟩

end PipelineBench.Machine
