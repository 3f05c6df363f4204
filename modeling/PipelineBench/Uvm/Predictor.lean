import PipelineBench.Model.SingleCycle
import PipelineBench.Uvm.Transaction

/-!
# The predictor

`predictor.h`: the outputs expected after a cycle, in closed form, from the
outputs observed before it and the stimuli it consumed.
-/

namespace PipelineBench.Predictor

open PipelineBench.Transaction

/-- `predictor::EXAMPLE::single_cycle_t::controls_t`. -/
structure Controls where
  is_advance : Bool
  is_error : Bool
  is_stall : Bool
  is_valid : Bool
  deriving DecidableEq, Repr

/-- `predictor::EXAMPLE::single_cycle_t::state_t`; the debug outputs are left
out by intent. -/
structure State where
  is_advance : Bool
  is_error : Bool
  is_stall : Bool
  is_valid : Bool
  value : Word
  deriving DecidableEq, Repr

/-- The body of `predict_state`, on the signals of the transaction. -/
def predictSignals (x_value : SingleCycleSignals) : State :=
  let state_0 := x_value.state_0
  let stimuli := x_value.stimuli
  let reset := stimuli.ctl.reset == false
  let reset_or_flush := reset || stimuli.ctl.is_flush
  -- expected combinatoric advance at start of MUT "cycle"
  let advance := !state_0.ctl.is_stall && (!state_0.ctl.is_valid || stimuli.ctl.is_advance)
  let error := !reset && (state_0.ctl.is_error || stimuli.debug.is_error)
  -- a single cycle module cannot stall
  let stall := false
  let valid := !reset_or_flush &&
    ((advance && stimuli.ctl.is_valid) || (!advance && state_0.ctl.is_valid))
  let value := if advance then ~~~stimuli.data.value else state_0.data.value
  ⟨advance, error, stall, valid, value⟩

def predictState (transaction : SingleCycleTransaction) : Except Abort State :=
  transaction.value.map predictSignals

def predictControls (transaction : SingleCycleTransaction) : Except Abort Controls :=
  (predictState transaction).map fun state =>
    ⟨state.is_advance, state.is_error, state.is_stall, state.is_valid⟩

/-- The control part of a predicted state. -/
def State.controls (state : State) : Controls :=
  ⟨state.is_advance, state.is_error, state.is_stall, state.is_valid⟩

theorem predictState_of_good {t : SingleCycleTransaction} (h : t.good = true) :
    predictState t = .ok (predictSignals t.m_value) := by
  rw [predictState, Basic.value_of_good h]
  rfl

theorem predictControls_of_good {t : SingleCycleTransaction} (h : t.good = true) :
    predictControls t = .ok (predictSignals t.m_value).controls := by
  rw [predictControls, predictState_of_good h]
  rfl

end PipelineBench.Predictor
