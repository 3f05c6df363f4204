import Mathlib.Data.List.GetD
import PipelineBench.Verify.ChainProgress
import PipelineBench.Verify.Reports

/-!
# The stages of a chain, one by one

What a stage of a chain goes through is a run of the module on its own, over the
inputs its neighbours give it. Every result about one module therefore holds of
each stage, the bench among them.
-/

namespace PipelineBench.Chain

open PipelineBench.Run PipelineBench.SingleCycle

/-- The inputs the stages see once every advance is settled. -/
def inputsFrom (x : ChainInput) : ℕ → Link → List MutOutput → List MutInput
  | _, _, [] => []
  | i, up, out :: rest =>
      stageInput x i up (settleFrom x (i + 1) (link out) rest) ::
        inputsFrom x (i + 1) (link out) rest

/-- One edge of a chain is one edge of each stage. -/
theorem edge_of_cycleFrom {x : ChainInput} {outs outs' : List MutOutput} {i : ℕ} {up : Link}
    (h : cycleFrom x i up (settleFrom x i up outs) = .ok outs') {k : ℕ} (hk : k < outs.length) :
    edge (outs.getD k .powerUp) ((inputsFrom x i up outs).getD k .powerUp) =
      .ok (outs'.getD k .powerUp) := by
  induction outs generalizing outs' i up k with
  | nil => exact absurd hk (by simp)
  | cons out rest ih =>
      have hlink : ∀ inp, link (settle inp out) = link out := fun _ => rfl
      rw [settleFrom, cycleFrom] at h
      simp only [hlink, bind, Except.bind, pure, Except.pure] at h
      cases hout : cycle (stageInput x i up (settleFrom x (i + 1) (link out) rest))
          (settle (stageInput x i up (settleFrom x (i + 1) (link out) rest)) out) with
      | error e =>
          rw [hout] at h
          cases h
      | ok out' =>
          simp only [hout] at h
          cases hrest : cycleFrom x (i + 1) (link out) (settleFrom x (i + 1) (link out) rest) with
          | error e =>
              rw [hrest] at h
              cases h
          | ok rest' =>
              rw [hrest] at h
              cases h
              cases k with
              | zero => exact hout
              | succ k => exact ih hrest (by simpa using hk)

/-- What stage `k` goes through at an edge of the chain. -/
def stageEdge (k : ℕ) (e : Edge (List MutOutput) ChainInput) : Edge MutOutput MutInput where
  before := e.before.getD k .powerUp
  input := (inputsFrom e.input 0 e.input.source e.before).getD k .powerUp
  after := e.after.getD k .powerUp

/-- The edges of a run at one stage are a run of the module. -/
theorem stage_history {n k : ℕ} (hk : k < n) {outs : List MutOutput} (hs : Sound n outs)
    {stream : List ChainInput} {edges : List (Edge (List MutOutput) ChainInput)}
    (hrun : history chainEdge outs stream = .ok edges) :
    history edge (outs.getD k .powerUp) (edges.map fun e => (stageEdge k e).input) =
      .ok (edges.map (stageEdge k)) := by
  induction stream generalizing outs edges with
  | nil =>
      rw [history_nil, Except.ok.injEq] at hrun
      subst hrun
      rfl
  | cons x stream ih =>
      obtain ⟨outs', rest, hedge, hrest, rfl⟩ := history_cons_ok hrun
      obtain ⟨outs₁, hedge₁, hs₁, -⟩ := chainEdge_spec x hs
      rw [hedge, Except.ok.injEq] at hedge₁
      subst hedge₁
      rw [List.map_cons, List.map_cons]
      refine history_cons ?_ (ih hs₁ hrest)
      exact edge_of_cycleFrom hedge (by rw [hs.1]; exact hk)

/-- **A bench fits any stage.** In a chain of initialised modules under any
inputs, a bench given the transactions of a stage counts no failure and prints
nothing, and passes exactly when that stage was given every pair of control
combinations on consecutive clocks ahead of the last one, which is not reported. -/
theorem stage_verdict (n : ℕ) (stream : List ChainInput) (hlen : stream.length < 2 ^ 32) :
    ∃ edges, history chainEdge (List.replicate n initialised) stream = .ok edges ∧
      ∀ k < n, ∃ bench,
        TestBench.writes .built
          ((edges.map (stageEdge k)).dropLast.map Monitor.edgeTransaction) = .ok bench ∧
        Reports.Quiet bench ∧
        (bench.isPass = true ↔ ∀ a b : InputControls,
          [a, b] <:+: ((edges.map (stageEdge k)).dropLast.map fun e =>
            EndToEnd.inputControls e.input)) := by
  have hs : Sound n (List.replicate n initialised) := by
    refine ⟨List.length_replicate, ?_⟩
    intro out hout
    rw [List.eq_of_mem_replicate hout]
    exact initialised_unstalled
  obtain ⟨edges, hrun, -⟩ := (chainEdge_total n).history_ok stream hs
  refine ⟨edges, hrun, ?_⟩
  intro k hk
  have hstage := stage_history hk hs hrun
  have hfirst : (List.replicate n initialised).getD k .powerUp = initialised := by
    rw [List.getD_eq_getElem _ _ (by rw [List.length_replicate]; exact hk), List.getElem_replicate]
  rw [hfirst] at hstage
  obtain ⟨bench, hwrites, hquiet, hpass⟩ := Reports.quiet_of_history hstage (by
    rw [List.length_map, history_length hrun]
    exact hlen)
  refine ⟨bench, hwrites, hquiet, ?_⟩
  rw [hpass]
  have hinputs : ((edges.map fun e => (stageEdge k e).input).dropLast.map
      EndToEnd.inputControls) =
      (edges.map (stageEdge k)).dropLast.map fun e => EndToEnd.inputControls e.input := by
    rw [← List.map_dropLast, ← List.map_dropLast, List.map_map, List.map_map]
    rfl
  rw [hinputs]

theorem stage_verdict_three :
    ∃ edges, history chainEdge (List.replicate 3 initialised)
        [⟨true, false, ⟨true, 6⟩, true, fun _ => ⟨0, 0, false, ""⟩⟩,
          ⟨true, true, ⟨false, 0⟩, true, fun _ => ⟨0, 0, true, ""⟩⟩] = .ok edges ∧
      ∀ k < 3, ∃ bench,
        TestBench.writes .built
          ((edges.map (stageEdge k)).dropLast.map Monitor.edgeTransaction) = .ok bench ∧
        Reports.Quiet bench ∧
        (bench.isPass = true ↔ ∀ a b : InputControls,
          [a, b] <:+: ((edges.map (stageEdge k)).dropLast.map fun e =>
            EndToEnd.inputControls e.input)) :=
  stage_verdict 3 _ (by decide)

end PipelineBench.Chain
