import Mathlib.Data.List.Chain
import PipelineBench.Uvm.Monitor
import PipelineBench.Uvm.ScoreBoard

/-!
# The predictor and the score boards as an oracle

Both directions of the comparison between the module and its predictor. The
module never raises an alarm, from any state it can be in; and a module that
raises none, whatever it is, shows the outputs of the reference module.
-/

namespace PipelineBench.Oracle

open PipelineBench.Run PipelineBench.SingleCycle PipelineBench.Monitor
open PipelineBench.Transaction PipelineBench.Predictor PipelineBench.ScoreBoard

/-! ## The module satisfies the predictor -/

/-- A value is shown as valid only after an edge that neither resets nor
flushes, and then it is the datum taken or the one held. -/
theorem valid_after {out out' : MutOutput} {inp : MutInput} (h : EdgeSpec out inp out')
    (hvalid : out'.ctl.is_valid = true) :
    (Advances out inp ∧ inp.ctl.is_valid = true ∧ out'.data.value = ~~~inp.data.value) ∨
    (¬ Advances out inp ∧ out.ctl.is_valid = true ∧ out'.data.value = out.data.value) := by
  have hv := h.is_valid
  have hd := h.value
  rw [hvalid] at hv
  by_cases hdis : Discards inp
  · rw [if_pos hdis] at hv
    exact absurd hv (by decide)
  · rw [if_neg hdis] at hv
    have hrun := not_discards_iff.mp hdis
    by_cases ha : computeAdvance inp out = true
    · rw [if_pos ha] at hv
      have hadv : Advances out inp := ⟨hrun.1, hrun.2, ha⟩
      rw [if_pos hadv] at hd
      exact Or.inl ⟨hadv, hv.symm, hd⟩
    · rw [if_neg ha] at hv
      have hadv : ¬ Advances out inp := fun h => ha h.2.2
      rw [if_neg hadv] at hd
      exact Or.inr ⟨hadv, hv.symm, hd⟩

/-- The predictor computes the outputs of an edge that does not stall. -/
theorem controlsAgree_of_edge {e : Edge MutOutput MutInput}
    (h : EdgeSpec e.before e.input e.after) : ControlsAgree (edgeSignals e) := by
  refine ⟨?_, ?_, ?_, ?_⟩
  · exact h.captured
  · have herr := h.is_error
    cases hr : e.input.ctl.reset <;>
      simp [edgeSignals, sampleState, sampleStimuli, predictSignals, hr, herr]
  · exact h.is_stall
  · have hv := h.is_valid
    by_cases hdis : Discards e.input
    · rw [if_pos hdis] at hv
      rcases hdis with hr | hf
      · simp [edgeSignals, sampleState, sampleStimuli, predictSignals, hr, hv]
      · simp [edgeSignals, sampleState, sampleStimuli, predictSignals, hf, hv]
    · rw [if_neg hdis] at hv
      obtain ⟨hr, hf⟩ := not_discards_iff.mp hdis
      have hadv : (predictSignals (edgeSignals e)).is_advance =
        computeAdvance e.input e.before := rfl
      cases ha : computeAdvance e.input e.before with
      | true =>
          rw [ha] at hv hadv
          simp only [predictSignals, edgeSignals, sampleState, sampleStimuli] at hadv
          simp [edgeSignals, sampleState, sampleStimuli, predictSignals, hr, hf, hv, hadv]
      | false =>
          rw [ha] at hv hadv
          simp only [predictSignals, edgeSignals, sampleState, sampleStimuli] at hadv
          simp [edgeSignals, sampleState, sampleStimuli, predictSignals, hr, hf, hv, hadv]

theorem valueAgrees_of_edge {e : Edge MutOutput MutInput}
    (h : EdgeSpec e.before e.input e.after) (hvalid : e.after.ctl.is_valid = true) :
    ValueAgrees (edgeSignals e) := by
  have hcap := h.captured
  rcases valid_after h hvalid with ⟨hadv, -, hval⟩ | ⟨hadv, hold, hval⟩
  · have ha := hadv.2.2
    simp only [computeAdvance] at ha
    simp [ValueAgrees, edgeSignals, sampleState, sampleStimuli, predictSignals, ha, hval]
  · have ha : computeAdvance e.input e.before = false := by
      by_contra hne
      rw [Bool.not_eq_false] at hne
      have hv := h.is_valid
      by_cases hdis : Discards e.input
      · rw [if_pos hdis, hvalid] at hv
        exact absurd hv (by decide)
      · have hrun := not_discards_iff.mp hdis
        exact hadv ⟨hrun.1, hrun.2, hne⟩
    simp only [computeAdvance] at ha
    simp [ValueAgrees, edgeSignals, sampleState, sampleStimuli, predictSignals, ha, hval]

/-- **No false alarm.** From the initialised module, every transaction of every
run is counted as a pass by the control board and as a pass or moot by the data
board, without a report, and the run never meets the stall exception. -/
theorem no_false_alarm (stream : List MutInput) :
    ∃ out edges, initialise = .ok out ∧ history edge out stream = .ok edges ∧
      edges.map Edge.input = stream ∧
      ∀ e ∈ edges,
        (∀ b : ControlBits, b.write (edgeTransaction e) = .ok (⟨b.m_count.pass⟩, [])) ∧
        (∀ b : DataValues, b.write (edgeTransaction e) = .ok (⟨b.m_count.pass⟩, []) ∨
          b.write (edgeTransaction e) = .ok (⟨b.m_count.moot⟩, [])) := by
  obtain ⟨edges, hrun, -, hspec⟩ :=
    edge_total.forall_edges (Q := fun e => EdgeSpec e.before e.input e.after)
      (fun _ _ _ hs he => edgeSpec_of_edge hs he) stream initialised_unstalled
  refine ⟨initialised, edges, initialise_eq, hrun, history_inputs hrun, ?_⟩
  intro e he
  have hctl := controlsAgree_of_edge (hspec e he)
  have hval : e.after.ctl.is_valid = true → ValueAgrees (edgeSignals e) :=
    valueAgrees_of_edge (hspec e he)
  constructor
  · intro b
    obtain ⟨reports, hw, hr⟩ := b.write_of_good (t := edgeTransaction e) rfl
    have hpass : ControlBits.verdict (edgeTransaction e).m_value = .pass := if_pos hctl
    rw [hr.mpr (by rw [hpass]; decide), hpass] at hw
    exact hw
  · intro b
    obtain ⟨reports, hw, hr⟩ := b.write_of_good (t := edgeTransaction e) rfl
    have hne : DataValues.verdict (edgeTransaction e).m_value ≠ .fail :=
      DataValues.verdict_ne_fail.mpr hval
    rw [hr.mpr hne] at hw
    cases hv : DataValues.verdict (edgeTransaction e).m_value with
    | fail => exact absurd hv hne
    | moot => rw [hv] at hw; exact Or.inr hw
    | pass => rw [hv] at hw; exact Or.inl hw

/-! ## A module the boards accept shows the reference outputs -/

/-- Along the list no write stops the run and none counts a failure. -/
def NeverFails {β : Type}
    (write : β → SingleCycleTransaction → Except Abort (β × List Report))
    (count : β → PassFailCount) : β → List SingleCycleTransaction → Prop
  | _, [] => True
  | b, t :: ts => ∃ b' reports, write b t = .ok (b', reports) ∧
      (count b').m_fail = (count b).m_fail ∧ NeverFails write count b' ts

/-- The observed outputs say the same as the registers of the reference: the
three registered controls, and the value where one is shown as valid. -/
structure Agrees (ref : MutOutput) (seen : MutOutputState) : Prop where
  is_error : ref.ctl.is_error = seen.ctl.is_error
  is_stall : ref.ctl.is_stall = seen.ctl.is_stall
  is_valid : ref.ctl.is_valid = seen.ctl.is_valid
  value : seen.ctl.is_valid = true → ref.data.value = seen.data.value

/-- An edge of the reference produced the observed outputs. -/
structure Produces (e : Edge MutOutput MutInput) (seen : MutOutputState) : Prop where
  is_advance : computeAdvance e.input e.before = seen.ctl.is_advance
  captured : e.after.debug.is_advance = seen.ctl.is_advance
  agrees : Agrees e.after seen

theorem ControlBits.good_of_write {b b' : ControlBits} {t : SingleCycleTransaction}
    {r : List Report} (h : b.write t = .ok (b', r)) : t.good = true := by
  by_contra hbad
  rw [Bool.not_eq_true] at hbad
  simp [ControlBits.write, predictControls, predictState, Basic.value, hbad, Except.map, bind,
    Except.bind] at h

theorem controlsAgree_of_neverFails {b : ControlBits} {t : SingleCycleTransaction}
    {ts : List SingleCycleTransaction}
    (h : NeverFails ControlBits.write ControlBits.m_count b (t :: ts)) :
    t.good = true ∧ ControlsAgree t.m_value ∧
      ∃ b', NeverFails ControlBits.write ControlBits.m_count b' ts := by
  obtain ⟨b', r, hw, hfail, hrest⟩ := h
  have hgood := ControlBits.good_of_write hw
  obtain ⟨r', hw', -⟩ := b.write_of_good hgood
  rw [hw, Except.ok.injEq, Prod.mk.injEq] at hw'
  rw [hw'.1, PassFailCount.m_fail_record, ControlBits.verdict_ne_fail] at hfail
  exact ⟨hgood, hfail, b', hrest⟩

theorem valueAgrees_of_neverFails {b : DataValues} {t : SingleCycleTransaction}
    {ts : List SingleCycleTransaction} (hgood : t.good = true)
    (h : NeverFails DataValues.write DataValues.m_count b (t :: ts)) :
    (t.m_value.state_1.ctl.is_valid = true → ValueAgrees t.m_value) ∧
      ∃ b', NeverFails DataValues.write DataValues.m_count b' ts := by
  obtain ⟨b', r, hw, hfail, hrest⟩ := h
  obtain ⟨r', hw', -⟩ := b.write_of_good hgood
  rw [hw, Except.ok.injEq, Prod.mk.injEq] at hw'
  rw [hw'.1, PassFailCount.m_fail_record, DataValues.verdict_ne_fail] at hfail
  exact ⟨hfail, b', hrest⟩

/-- The controls are predicted from the registers and the stimuli alone. -/
theorem predictSignals_of_agrees {ref : MutOutput} {inp : MutInput} {x : SingleCycleSignals}
    (ref' : MutOutput) (hag : Agrees ref x.state_0) (hst : sampleStimuli inp = x.stimuli) :
    (predictSignals (edgeSignals ⟨ref, inp, ref'⟩)).controls = (predictSignals x).controls := by
  simp [edgeSignals, predictSignals, sampleState, State.controls, hst, hag.is_error,
    hag.is_stall, hag.is_valid]

/-- The predictor reads the observed state only where the agreement speaks: the
old value matters on no cycle after which a new observation is not moot. -/
theorem value_of_agrees {ref ref' : MutOutput} {inp : MutInput} {x : SingleCycleSignals}
    (hspec : EdgeSpec ref inp ref') (hag : Agrees ref x.state_0)
    (hst : sampleStimuli inp = x.stimuli) (hvalid : ref'.ctl.is_valid = true)
    (hval : ValueAgrees x) : ref'.data.value = x.state_1.data.value := by
  have href := valueAgrees_of_edge (e := ⟨ref, inp, ref'⟩) hspec hvalid
  unfold ValueAgrees at href hval
  apply href.trans
  rw [hval]
  rcases valid_after hspec hvalid with ⟨htake, -, -⟩ | ⟨-, hold, -⟩
  · have ha := htake.2.2
    simp only [computeAdvance, hag.is_stall, hag.is_valid] at ha
    have hadv_in : inp.ctl.is_advance = x.stimuli.ctl.is_advance := by rw [← hst]; rfl
    rw [hadv_in] at ha
    simp [predictSignals, edgeSignals, sampleState, hst, hag.is_stall, hag.is_valid, ha]
  · have hv0 : x.state_0.ctl.is_valid = true := hag.is_valid.symm.trans hold
    simp [predictSignals, edgeSignals, sampleState, hst, hag.is_stall, hag.is_valid,
      hag.value hv0]

theorem produces_of_agrees {ref : MutOutput} {inp : MutInput} {x : SingleCycleSignals}
    (hun : Unstalled ref) (hag : Agrees ref x.state_0) (hst : sampleStimuli inp = x.stimuli)
    (hctl : ControlsAgree x) (hval : x.state_1.ctl.is_valid = true → ValueAgrees x) :
    ∃ ref', edge ref inp = .ok ref' ∧ Unstalled ref' ∧ Produces ⟨ref, inp, ref'⟩ x.state_1 := by
  rcases edge_spec inp hun with ⟨ref', hedge, hspec⟩
  rcases hctl with ⟨hadv, herr, hstall, hvalid⟩
  rcases controlsAgree_of_edge (e := ⟨ref, inp, ref'⟩) hspec with ⟨radv, rerr, rstall, rvalid⟩
  -- both predictions are of the same registers and stimuli
  have hpred := predictSignals_of_agrees ref' hag hst
  rw [State.controls, State.controls, Controls.mk.injEq] at hpred
  rcases hpred with ⟨padv, perr, pstall, pvalid⟩
  have hv' : ref'.ctl.is_valid = x.state_1.ctl.is_valid := by
    rw [hvalid, ← pvalid, ← rvalid]; rfl
  have ha' : ref'.debug.is_advance = x.state_1.ctl.is_advance := by
    rw [hadv, ← padv, ← radv]; rfl
  refine ⟨ref', hedge, hspec.is_stall, ?_, ha', ⟨?_, ?_, hv', ?_⟩⟩
  · exact hspec.captured.symm.trans ha'
  · rw [herr, ← perr, ← rerr]; rfl
  · rw [hstall, ← pstall, ← rstall]; rfl
  · intro hseen
    exact value_of_agrees hspec hag hst (hv'.trans hseen) (hval hseen)

/-- **The score boards are a sound oracle.** A chained list of transactions on
which neither board counts a failure is what the reference module does on the
same stimuli, from any state that does not stall and agrees with the first one
observed. -/
theorem sound_oracle (ts : List SingleCycleTransaction) (inputs : List MutInput)
    (hinputs : inputs.map sampleStimuli = ts.map (·.m_value.stimuli))
    (hchain : ts.IsChain fun s t => s.m_value.state_1 = t.m_value.state_0)
    (controls : ControlBits) (values : DataValues)
    (hcontrols : NeverFails ControlBits.write ControlBits.m_count controls ts)
    (hvalues : NeverFails DataValues.write DataValues.m_count values ts)
    (ref : MutOutput) (hun : Unstalled ref)
    (hag : ∀ t ∈ ts.head?, Agrees ref t.m_value.state_0) :
    ∃ edges, history edge ref inputs = .ok edges ∧
      List.Forall₂ (fun e t => Produces e t.m_value.state_1) edges ts := by
  induction ts generalizing inputs controls values ref with
  | nil =>
      rw [List.map_nil, List.map_eq_nil_iff] at hinputs
      subst hinputs
      exact ⟨[], rfl, .nil⟩
  | cons t ts ih =>
      rw [List.map_cons, List.map_eq_cons_iff] at hinputs
      obtain ⟨inp, inputs, rfl, hst, hinputs⟩ := hinputs
      rw [List.isChain_cons] at hchain
      obtain ⟨hgood, hctl, controls', hcontrols'⟩ := controlsAgree_of_neverFails hcontrols
      obtain ⟨hval, values', hvalues'⟩ := valueAgrees_of_neverFails hgood hvalues
      obtain ⟨ref', hedge, hun', hprod⟩ :=
        produces_of_agrees hun (hag t rfl) hst hctl hval
      have hag' : ∀ u ∈ ts.head?, Agrees ref' u.m_value.state_0 := by
        intro u hu
        rw [← hchain.1 u hu]
        exact hprod.agrees
      obtain ⟨edges, hrun, hall⟩ :=
        ih inputs hinputs hchain.2 controls' values' hcontrols' hvalues' ref' hun' hag'
      exact ⟨_, history_cons hedge hrun, .cons hprod hall⟩

/-- A cycle in which nothing is offered, as the monitor reports it: its value is
moot. -/
def nothingOffered : SingleCycleTransaction where
  m_good := true
  m_value :=
    { state_0 := ⟨⟨false, false, false, false⟩, ⟨0⟩, ⟨0, 0, false⟩⟩
      stimuli := ⟨⟨true, false, false, false⟩, ⟨4⟩, ⟨0, 0, false⟩⟩
      state_1 := ⟨⟨true, false, false, false⟩, ⟨0xFFFFFFFB⟩, ⟨0, 0, true⟩⟩ }

/-- The next cycle accepts a datum. -/
def acceptFive : SingleCycleTransaction where
  m_good := true
  m_value :=
    { state_0 := ⟨⟨true, false, false, false⟩, ⟨0xFFFFFFFB⟩, ⟨0, 0, true⟩⟩
      stimuli := ⟨⟨true, false, false, true⟩, ⟨5⟩, ⟨0, 0, false⟩⟩
      state_1 := ⟨⟨true, false, false, true⟩, ⟨0xFFFFFFFA⟩, ⟨0, 0, true⟩⟩ }

/-- The next one holds it. -/
def holdFive : SingleCycleTransaction where
  m_good := true
  m_value :=
    { state_0 := ⟨⟨true, false, false, true⟩, ⟨0xFFFFFFFA⟩, ⟨0, 0, true⟩⟩
      stimuli := ⟨⟨true, false, false, true⟩, ⟨6⟩, ⟨0, 0, false⟩⟩
      state_1 := ⟨⟨false, false, false, true⟩, ⟨0xFFFFFFFA⟩, ⟨0, 0, false⟩⟩ }

theorem sound_oracle_hold :
    ∃ edges, history edge initialised
        [⟨⟨true, false, false, false⟩, ⟨4⟩, ⟨0, 0, false, ""⟩⟩,
          ⟨⟨true, false, false, true⟩, ⟨5⟩, ⟨0, 0, false, ""⟩⟩,
          ⟨⟨true, false, false, true⟩, ⟨6⟩, ⟨0, 0, false, ""⟩⟩] = .ok edges ∧
      List.Forall₂ (fun e t => Produces e t.m_value.state_1) edges
        [nothingOffered, acceptFive, holdFive] := by
  refine sound_oracle [nothingOffered, acceptFive, holdFive] _ rfl ?_ .fresh .fresh
    ⟨_, _, rfl, rfl, _, _, rfl, rfl, _, _, rfl, rfl, trivial⟩
    ⟨_, _, rfl, rfl, _, _, rfl, rfl, _, _, rfl, rfl, trivial⟩ initialised rfl ?_
  · simp [nothingOffered, acceptFive, holdFive]
  · intro t ht
    rw [List.head?_cons, Option.mem_some_iff] at ht
    subst ht
    constructor <;> simp [initialised, nothingOffered]

end PipelineBench.Oracle
