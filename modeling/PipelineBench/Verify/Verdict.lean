import PipelineBench.Verify.EndToEnd

/-!
# What the verdict means

The conjunction that `is_pass` computes from its counters, in the terms of the
transactions the boards were given.
-/

namespace PipelineBench.TestBench

open PipelineBench.Transaction PipelineBench.Predictor PipelineBench.ScoreBoard
open PipelineBench.Sequence

/-- Neighbours with given controls, found among the transactions themselves. -/
theorem controls_infix_iff {ts : List SingleCycleTransaction} (a b : InputControls) :
    [a, b] <:+: (ts.map (·.m_value)).map (·.stimuli.controls) ↔
      ∃ s t, [s, t] <:+: ts ∧
        s.m_value.stimuli.controls = a ∧ t.m_value.stimuli.controls = b := by
  rw [List.map_map, List.infix_map_iff]
  constructor
  · rintro ⟨l, hl, heq⟩
    rcases List.map_eq_cons_iff.mp heq.symm with ⟨s, l', rfl, hs, hrest⟩
    rcases List.map_eq_singleton_iff.mp hrest with ⟨t, rfl, ht⟩
    exact ⟨s, t, hl, hs, ht⟩
  · rintro ⟨s, t, hst, rfl, rfl⟩
    exact ⟨[s, t], hst, rfl⟩

/-- **Meaning of the verdict.** The bench passes exactly when something was
observed and every control output was as predicted, some value was checked and
every checked value was as predicted, and every ordered pair of control
combinations occurred on consecutive cycles. -/
theorem verdict_meaning (ts : List SingleCycleTransaction) (hgood : ∀ t ∈ ts, t.good = true)
    (hlen : ts.length < 2 ^ 32) :
    ∃ bench values, writes built ts = .ok bench ∧ bench.m_sb_values = some values ∧
      (bench.isPass = true ↔
        (ts ≠ [] ∧ ∀ t ∈ ts, ControlsAgree t.m_value) ∧
        ((∃ t ∈ ts, t.m_value.state_1.ctl.is_valid = true) ∧
          ∀ t ∈ ts, t.m_value.state_1.ctl.is_valid = true → ValueAgrees t.m_value) ∧
        ∀ a b : InputControls, ∃ s t, [s, t] <:+: ts ∧
          s.m_value.stimuli.controls = a ∧ t.m_value.stimuli.controls = b) ∧
      values.m_count.m_pass.toNat + values.m_count.m_fail.toNat +
        values.m_count.m_moot.toNat = ts.length := by
  obtain ⟨reports, hrun⟩ := writes_built ts hgood
  refine ⟨_, _, hrun, rfl, ?_, ?_⟩
  · rw [isPass_ofSignals reports (by simpa using hlen)]
    have hvalid : (∃ x ∈ ts.map (·.m_value), x.state_1.ctl.is_valid = true) ↔
        ∃ t ∈ ts, t.m_value.state_1.ctl.is_valid = true := by simp
    simp only [controls_infix_iff, hvalid, List.forall_mem_map, ne_eq, List.map_eq_nil_iff]
  · have hsum := @ofVerdicts_sum ((ts.map (·.m_value)).map DataValues.verdict) (by simpa using hlen)
    rw [List.length_map, List.length_map] at hsum
    exact hsum

/-- The transcript of one iteration of the pair sequence: both sides hold. -/
theorem verdict_meaning_pairs :
    ∃ b bench values,
      (Bench.start (EndToEnd.inputs 1 (allControlPairsBody (fun _ => '?') 1)) .ugly).run 2051 =
        .ok b ∧
      writes built b.transmitted = .ok bench ∧ bench.m_sb_values = some values ∧
      bench.isPass = true ∧
      ((b.transmitted ≠ [] ∧ ∀ t ∈ b.transmitted, ControlsAgree t.m_value) ∧
        ((∃ t ∈ b.transmitted, t.m_value.state_1.ctl.is_valid = true) ∧
          ∀ t ∈ b.transmitted, t.m_value.state_1.ctl.is_valid = true → ValueAgrees t.m_value) ∧
        ∀ p q : InputControls, ∃ s t, [s, t] <:+: b.transmitted ∧
          s.m_value.stimuli.controls = p ∧ t.m_value.stimuli.controls = q) ∧
      values.m_count.m_pass.toNat + values.m_count.m_fail.toNat +
        values.m_count.m_moot.toNat = 2050 := by
  obtain ⟨is, es, b, hrun, hlen, hinv⟩ :=
    Bench.run_inv (EndToEnd.inputs 1 (allControlPairsBody (fun _ => '?') 1)) .ugly 2051
  have hsent : b.transmitted = es.dropLast.map Monitor.edgeTransaction := hinv.watching.transmitted
  have hes : es.length = 2051 := (Run.history_length hinv.history).trans hlen
  have hcount : b.transmitted.length = 2050 := by
    rw [hsent, List.length_map, List.length_dropLast, hes]
  have hgood : ∀ t ∈ b.transmitted, t.good = true := by
    rw [hsent]
    intro t ht
    rcases List.mem_map.mp ht with ⟨e, -, rfl⟩
    rfl
  obtain ⟨bench, values, hwrites, hvalues, hpass, hsum⟩ :=
    verdict_meaning b.transmitted hgood (by rw [hcount]; decide)
  have hdriven : Driver.driven (allControlPairsBody (fun _ => '?') 1) <:+: is := by
    apply EndToEnd.driven_infix hinv
    rw [hlen, allControlPairsBody, List.length_append, List.range_one, List.flatMap_singleton,
      length_pairItems]
    decide
  obtain ⟨bench', hwrites', hok⟩ := EndToEnd.verdict_of_history hinv.history (by rw [hlen]; decide)
    (EndToEnd.covers_of_driven _ (le_refl 1) (List.infix_refl _) hdriven)
  rw [← hsent, hwrites, Except.ok.injEq] at hwrites'
  subst hwrites'
  exact ⟨b, bench, values, hrun, hwrites, hvalues, hok, hpass.mp hok, hsum.trans hcount⟩

end PipelineBench.TestBench
