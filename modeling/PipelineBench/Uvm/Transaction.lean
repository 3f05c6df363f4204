import PipelineBench.Model.Signals

/-!
# Transactions

What the monitor reports to the score boards: `transaction.h`. A transaction
wraps its signals with a good bit, so that reading a value that was never set is
fatal rather than silent.
-/

namespace PipelineBench.Transaction

/-! ## `transaction::single_cycle_signals_t` -/

structure StimuliDebug where
  i_binary : Word
  i_number : Word
  is_error : Bool
  deriving DecidableEq, Repr

/-- Sampled inputs, the diagnostic string left out. -/
structure MutInputStimuli where
  ctl : ControlIn
  data : DataIn
  debug : StimuliDebug
  deriving DecidableEq, Repr

structure StateDebug where
  i_binary : Word
  i_number : Word
  is_advance : Bool
  deriving DecidableEq, Repr

/-- Sampled outputs, the diagnostic string left out. -/
structure MutOutputState where
  ctl : ControlOut
  data : DataOut
  debug : StateDebug
  deriving DecidableEq, Repr

structure SingleCycleSignals where
  state_0 : MutOutputState
  stimuli : MutInputStimuli
  state_1 : MutOutputState
  deriving DecidableEq, Repr

/-- `single_cycle_signals_t{}`, the ugly value of an unset transaction. -/
def SingleCycleSignals.ugly : SingleCycleSignals where
  state_0 := ⟨⟨false, false, false, false⟩, ⟨0⟩, ⟨0, 0, false⟩⟩
  stimuli := ⟨⟨false, false, false, false⟩, ⟨0⟩, ⟨0, 0, false⟩⟩
  state_1 := ⟨⟨false, false, false, false⟩, ⟨0⟩, ⟨0, 0, false⟩⟩

/-- The five input control bits of sampled stimuli. -/
def MutInputStimuli.controls (stimuli : MutInputStimuli) : InputControls :=
  ⟨stimuli.ctl.reset, stimuli.ctl.is_advance, stimuli.debug.is_error,
    stimuli.ctl.is_flush, stimuli.ctl.is_valid⟩

/-! ## `transaction::basic_t` -/

structure Basic (α : Type) where
  m_good : Bool
  m_value : α
  deriving DecidableEq, Repr

namespace Basic

variable {α : Type}

def fresh (ugly_value : α) : Basic α := ⟨false, ugly_value⟩

def good (t : Basic α) : Bool := t.m_good

def value (t : Basic α) : Except Abort α :=
  if t.good then .ok t.m_value
  else .error (.uvmFatal "NO_GOOD" "Transaction value is not set.")

def setValue (_ : Basic α) (value : α) : Basic α := ⟨true, value⟩

def invalidate (t : Basic α) : Basic α := { t with m_good := false }

def reset (ugly_value : α) (_ : Basic α) : Basic α := ⟨false, ugly_value⟩

@[simp] theorem good_setValue (t : Basic α) (v : α) : (t.setValue v).good = true := rfl

@[simp] theorem m_value_setValue (t : Basic α) (v : α) : (t.setValue v).m_value = v := rfl

@[simp] theorem good_invalidate (t : Basic α) : t.invalidate.good = false := rfl

theorem value_of_good {t : Basic α} (h : t.good = true) : t.value = .ok t.m_value := by
  rw [value, if_pos h]

end Basic

end PipelineBench.Transaction

namespace PipelineBench

/-- `transaction::single_cycle_t`. -/
abbrev SingleCycleTransaction := Transaction.Basic Transaction.SingleCycleSignals

end PipelineBench
