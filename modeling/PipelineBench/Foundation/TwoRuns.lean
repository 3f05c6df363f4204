import Mathlib.Data.List.Forall2
import PipelineBench.Foundation.Run

/-!
# Two runs side by side

A relation between two runs of one machine. `trace` keeps what a run did before
it stopped, so that a run that ends in an error can be compared too. `Sync`
is the one obligation; `trace_sync` is the induction over both runs.
-/

namespace PipelineBench.Run

variable {ε σ ι : Type*}

/-- The edges taken up to the first error, and how the run ends. -/
def trace (step : σ → ι → Except ε σ) : σ → List ι → List (Edge σ ι) × Except ε σ
  | s, [] => ([], .ok s)
  | s, i :: is =>
      match step s i with
      | .error e => ([], .error e)
      | .ok s' => (⟨s, i, s'⟩ :: (trace step s' is).1, (trace step s' is).2)

variable {step : σ → ι → Except ε σ}

theorem trace_error {s : σ} {i : ι} {e : ε} (h : step s i = .error e) (is : List ι) :
    trace step s (i :: is) = ([], .error e) := by
  rw [trace, h]

theorem trace_ok {s s' : σ} {i : ι} (h : step s i = .ok s') (is : List ι) :
    trace step s (i :: is) =
      (⟨s, i, s'⟩ :: (trace step s' is).1, (trace step s' is).2) := by
  rw [trace, h]

/-- A history is the trace of a run that meets no error. -/
theorem trace_of_history {s : σ} {is : List ι} {es : List (Edge σ ι)}
    (h : history step s is = .ok es) : trace step s is = (es, .ok (final s es)) := by
  induction is generalizing s es with
  | nil =>
      rw [history_nil, Except.ok.injEq] at h
      subst h
      rfl
  | cons i is ih =>
      rcases history_cons_ok h with ⟨s', es', hs, hes, rfl⟩
      rw [trace_ok hs, ih hes]
      rfl

/-- Two runs end the same way: with one error, or in related states. -/
def SameEnd (R : σ → σ → Prop) (r r' : Except ε σ) : Prop :=
  (∃ e, r = .error e ∧ r' = .error e) ∨ ∃ s t, r = .ok s ∧ r' = .ok t ∧ R s t

/-- Related states and inputs give related edges, or one error. `H` is what may
be assumed of a pair of edges that are taken. -/
def Sync (step : σ → ι → Except ε σ) (R : σ → σ → Prop) (I : ι → ι → Prop)
    (H Q : Edge σ ι → Edge σ ι → Prop) : Prop :=
  ∀ s t i j, R s t → I i j →
    (∃ e, step s i = .error e ∧ step t j = .error e) ∨
    ∃ s' t', step s i = .ok s' ∧ step t j = .ok t' ∧
      (H ⟨s, i, s'⟩ ⟨t, j, t'⟩ → R s' t' ∧ Q ⟨s, i, s'⟩ ⟨t, j, t'⟩)

/-- The induction over two runs. They stop at the same place, and every pair of
edges taken is related when the assumption holds of every pair. -/
theorem trace_sync {R : σ → σ → Prop} {I : ι → ι → Prop} {H Q : Edge σ ι → Edge σ ι → Prop}
    (hsync : Sync step R I H Q) {is js : List ι} (hinputs : List.Forall₂ I is js) {s t : σ}
    (hst : R s t)
    (hassume : ∀ p ∈ (trace step s is).1.zip (trace step t js).1, H p.1 p.2) :
    List.Forall₂ Q (trace step s is).1 (trace step t js).1 ∧
      SameEnd R (trace step s is).2 (trace step t js).2 := by
  induction hinputs generalizing s t with
  | nil => exact ⟨.nil, Or.inr ⟨s, t, rfl, rfl, hst⟩⟩
  | @cons i j is js hij _ ih =>
      rcases hsync s t i j hst hij with ⟨e, hs, ht⟩ | ⟨s', t', hs, ht, hnext⟩
      · rw [trace_error hs, trace_error ht]
        exact ⟨.nil, Or.inl ⟨e, rfl, rfl⟩⟩
      · rw [trace_ok hs, trace_ok ht] at hassume ⊢
        rw [List.zip_cons_cons] at hassume
        rcases hnext (hassume _ (List.mem_cons_self ..)) with ⟨hst', hq⟩
        have hrest := ih hst' fun p hp => hassume p (List.mem_cons_of_mem _ hp)
        exact ⟨.cons hq hrest.1, hrest.2⟩

/-- The same for two runs known to succeed. -/
theorem history_sync {R : σ → σ → Prop} {I : ι → ι → Prop} {H Q : Edge σ ι → Edge σ ι → Prop}
    (hsync : Sync step R I H Q) {is js : List ι} (hinputs : List.Forall₂ I is js) {s t : σ}
    (hst : R s t) {es fs : List (Edge σ ι)} (hes : history step s is = .ok es)
    (hfs : history step t js = .ok fs) (hassume : ∀ p ∈ es.zip fs, H p.1 p.2) :
    List.Forall₂ Q es fs := by
  have htraces := trace_sync hsync hinputs hst
  rw [trace_of_history hes, trace_of_history hfs] at htraces
  exact (htraces hassume).1

end PipelineBench.Run
