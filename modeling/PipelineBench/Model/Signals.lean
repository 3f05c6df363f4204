import Mathlib.Algebra.Group.Nat.Defs
import Mathlib.Tactic.Common

/-!
# Signals of the pipeline model

The value types of `model.h` and the bundles of signals between a pipeline
module and its surroundings. `MutInput` and `MutOutput` follow the channels of
the virtual interface in `vif.h`; the ports of the module are bound to the same
signals one for one. The clock is not a field: a rising edge is a step.
-/

namespace PipelineBench

/-- A C++ `unsigned`, wrapping at `2 ^ 32`. -/
abbrev Unsigned := BitVec 32

/-- `std::size_t`. -/
abbrev SizeT := BitVec 64

/-- `model::word_t`, also `value_t`, `i_number_t` and `i_binary_t`. -/
abbrev Word := BitVec 32

/-- The ways the program stops early: a thrown exception, or a fatal UVM
report, whose action ends the run. -/
inductive Abort where
  | logicError (what : String)
  | thrown (text : String)
  | uvmFatal (id message : String)
  | unfinished
  deriving DecidableEq, Repr

/-! ## Inputs of the module under test -/

/-- Control channel in. `reset` is low active. -/
structure ControlIn where
  reset : Bool
  is_advance : Bool
  is_flush : Bool
  is_valid : Bool
  deriving DecidableEq, Repr

structure DataIn where
  value : Word
  deriving DecidableEq, Repr

structure DebugIn where
  i_binary : Word
  i_number : Word
  is_error : Bool
  string : String
  deriving DecidableEq, Repr

/-- `vif::EXAMPLE::single_cycle_t::mut_input_t`, less the clock. -/
structure MutInput where
  ctl : ControlIn
  data : DataIn
  debug : DebugIn
  deriving DecidableEq, Repr

/-- Every `sc_signal` starts at the zero of its type, so reset is asserted
until the first write. -/
def MutInput.powerUp : MutInput where
  ctl := ⟨false, false, false, false⟩
  data := ⟨0⟩
  debug := ⟨0, 0, false, ""⟩

/-! ## Outputs of the module under test -/

structure ControlOut where
  is_advance : Bool
  is_error : Bool
  is_stall : Bool
  is_valid : Bool
  deriving DecidableEq, Repr

structure DataOut where
  value : Word
  deriving DecidableEq, Repr

structure DebugOut where
  i_binary : Word
  i_number : Word
  is_advance : Bool
  string : String
  deriving DecidableEq, Repr

/-- `vif::EXAMPLE::single_cycle_t::mut_output_t`, the signals the module owns. -/
structure MutOutput where
  ctl : ControlOut
  data : DataOut
  debug : DebugOut
  deriving DecidableEq, Repr

def MutOutput.powerUp : MutOutput where
  ctl := ⟨false, false, false, false⟩
  data := ⟨0⟩
  debug := ⟨0, 0, false, ""⟩

/-- One combination of the five input control bits the bench crosses: the four
control inputs and the error stimulus, in the order the score board packs them. -/
structure InputControls where
  reset : Bool
  is_advance : Bool
  is_error : Bool
  is_flush : Bool
  is_valid : Bool
  deriving DecidableEq, Repr

end PipelineBench
