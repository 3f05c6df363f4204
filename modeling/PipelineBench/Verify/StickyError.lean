import PipelineBench.Uvm.Monitor
import PipelineBench.Uvm.Predictor

/-!
# The error bit

The module sets its error bit in one branch and keeps it in three; the predictor
has a closed form. Both compute whether an error was signalled since the last
reset.
-/

namespace PipelineBench.StickyError

open Run SingleCycle Transaction Predictor
open Monitor (sampleStimuli)

/-! ## The latch -/

/-- Some cycle signalled an error out of reset, and none after it reset. -/
def ErrorSinceReset (inputs : List MutInput) : Prop :=
  ∃ pre x post, inputs = pre ++ x :: post ∧
    x.debug.is_error = true ∧ x.ctl.reset = true ∧ ∀ y ∈ post, y.ctl.reset = true

theorem not_errorSinceReset_nil : ¬ ErrorSinceReset [] := by
  rintro ⟨pre, x, post, h, -⟩
  simp at h

theorem errorSinceReset_cons (x : MutInput) (xs : List MutInput) :
    ErrorSinceReset (x :: xs) ↔
      (x.debug.is_error = true ∧ x.ctl.reset = true ∧ ∀ y ∈ xs, y.ctl.reset = true) ∨
        ErrorSinceReset xs := by
  unfold ErrorSinceReset
  constructor
  · rintro ⟨pre, z, post, heq, herr, hreset, hpost⟩
    cases pre with
    | nil =>
        rw [List.nil_append, List.cons.injEq] at heq
        obtain ⟨rfl, rfl⟩ := heq
        exact Or.inl ⟨herr, hreset, hpost⟩
    | cons w pre =>
        rw [List.cons_append, List.cons.injEq] at heq
        exact Or.inr ⟨pre, z, post, heq.2, herr, hreset, hpost⟩
  · rintro (⟨herr, hreset, hall⟩ | ⟨pre, z, post, rfl, herr, hreset, hpost⟩)
    · exact ⟨[], x, xs, rfl, herr, hreset, hall⟩
    · exact ⟨x :: pre, z, post, rfl, herr, hreset, hpost⟩

/-- The bit at the end of a run: it was signalled on the way, or was set at the
start and no cycle reset it. -/
theorem is_error_final {out : MutOutput} (hun : Unstalled out) {xs : List MutInput}
    {edges : List (Edge MutOutput MutInput)} (hrun : history edge out xs = .ok edges) :
    (final out edges).ctl.is_error = true ↔
      ErrorSinceReset xs ∨ (out.ctl.is_error = true ∧ ∀ y ∈ xs, y.ctl.reset = true) := by
  induction xs generalizing out edges with
  | nil =>
      rw [history_nil, Except.ok.injEq] at hrun
      subst hrun
      simp [not_errorSinceReset_nil]
  | cons x xs ih =>
      obtain ⟨out', edges', hedge, hrest, rfl⟩ := history_cons_ok hrun
      have hspec := edgeSpec_of_edge hun hedge
      rw [final_cons, ih hspec.is_stall hrest, errorSinceReset_cons, hspec.is_error,
        List.forall_mem_cons, Bool.and_eq_true, Bool.or_eq_true]
      constructor
      · rintro (hlater | ⟨⟨hreset, hold | herr⟩, hall⟩)
        · exact Or.inl (Or.inr hlater)
        · exact Or.inr ⟨hold, hreset, hall⟩
        · exact Or.inl (Or.inl ⟨herr, hreset, hall⟩)
      · rintro ((⟨herr, hreset, hall⟩ | hlater) | ⟨hold, hreset, hall⟩)
        · exact Or.inr ⟨⟨hreset, Or.inr herr⟩, hall⟩
        · exact Or.inl hlater
        · exact Or.inr ⟨⟨hreset, Or.inl hold⟩, hall⟩

/-! ## The predictor iterated -/

/-- A prediction in the place of an observation. -/
def observed (s : State) : MutOutputState :=
  ⟨⟨s.is_advance, s.is_error, s.is_stall, s.is_valid⟩, ⟨s.value⟩, ⟨0, 0, s.is_advance⟩⟩

/-- The prediction made from a prediction. -/
def predictNext (s : State) (stimuli : MutInputStimuli) : Except Abort State :=
  predictState ⟨true, ⟨observed s, stimuli, observed s⟩⟩

/-- What the initialised module shows. -/
def initialState : State := ⟨true, false, false, false, 0⟩

/-- The predictor's error bit has the recurrence of the module's. -/
theorem predictNext_is_error (s : State) (x : MutInput) :
    ∃ s', predictNext s (sampleStimuli x) = .ok s' ∧
      s'.is_error = (x.ctl.reset && (s.is_error || x.debug.is_error)) := by
  refine ⟨_, predictState_of_good (t := ⟨true, ⟨observed s, sampleStimuli x, observed s⟩⟩) rfl, ?_⟩
  cases hr : x.ctl.reset <;> simp [predictSignals, observed, sampleStimuli, hr]

theorem predicted_errors {out : MutOutput} (hun : Unstalled out) {s : State}
    (hsame : s.is_error = out.ctl.is_error) (xs : List MutInput) :
    ∃ edges predicted, history edge out xs = .ok edges ∧
      history predictNext s (xs.map sampleStimuli) = .ok predicted ∧
      predicted.map (·.after.is_error) = edges.map (·.after.ctl.is_error) := by
  induction xs generalizing out s with
  | nil => exact ⟨[], [], rfl, rfl, rfl⟩
  | cons x xs ih =>
      obtain ⟨out', hedge, hspec⟩ := edge_spec x hun
      obtain ⟨s', hnext, herr⟩ := predictNext_is_error s x
      have hsame' : s'.is_error = out'.ctl.is_error := by rw [herr, hspec.is_error, hsame]
      obtain ⟨edges, predicted, hrun, hpred, hmap⟩ := ih hspec.is_stall hsame'
      refine ⟨_, _, history_cons hedge hrun, history_cons hnext hpred, ?_⟩
      rw [List.map_cons, List.map_cons, hmap]
      show s'.is_error :: _ = out'.ctl.is_error :: _
      rw [hsame']

/-- **The error bit is the error since reset.** After every cycle of every run of
the initialised module, and the predictor iterated over the same stimuli has the
same history of error bits. -/
theorem error_since_reset (stream : List MutInput) :
    ∃ edges predicted, history edge initialised stream = .ok edges ∧
      history predictNext initialState (stream.map sampleStimuli) = .ok predicted ∧
      (∀ n, (final initialised (edges.take n)).ctl.is_error = true ↔
        ErrorSinceReset (stream.take n)) ∧
      predicted.map (·.after.is_error) = edges.map (·.after.ctl.is_error) := by
  rcases predicted_errors initialised_unstalled (s := initialState) rfl stream
    with ⟨edges, predicted, hrun, hpred, hmap⟩
  refine ⟨edges, predicted, hrun, hpred, ?_, hmap⟩
  intro n
  rw [is_error_final initialised_unstalled (history_take hrun n)]
  constructor
  · rintro (h | ⟨h, -⟩)
    · exact h
    · -- the initialised module shows no error
      cases h
  · exact Or.inl

end PipelineBench.StickyError
