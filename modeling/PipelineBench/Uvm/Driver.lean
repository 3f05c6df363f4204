import PipelineBench.Uvm.Request

/-!
# The driver

`driver.h`: each request becomes one clock of input signals, written through
the setters of the virtual interface in `vif.h`. The data value is the
complement of the binary, so that the module restores it.
-/

namespace PipelineBench

/-! ## `vif::EXAMPLE::single_cycle_t` -/

namespace MutInput

def setControlInputs (vif : MutInput) (reset is_advance is_flush is_valid : Bool) : MutInput :=
  { vif with ctl := ⟨reset, is_advance, is_flush, is_valid⟩ }

def setDataInputs (vif : MutInput) (value : Word) : MutInput := { vif with data := ⟨value⟩ }

def setDebugInputs (vif : MutInput) (i_binary i_number : Word) (is_error : Bool)
    (string : String) : MutInput :=
  { vif with debug := ⟨i_binary, i_number, is_error, string⟩ }

end MutInput

namespace Driver

open Request

/-- The writes every `item_process` makes before it waits for the clock. -/
def write (vif : MutInput) (reset is_advance is_flush is_valid : Bool)
    (i_binary i_number : Word) (is_error : Bool) (string : String) : MutInput :=
  ((vif.setControlInputs reset is_advance is_flush is_valid).setDataInputs
    (~~~i_binary)).setDebugInputs i_binary i_number is_error string

/-! ## `item_process` -/

def itemProcessError (vif : MutInput) : MutInput :=
  write vif true true false true 0xE1000000 0xE8000000 true "ERROR"

def itemProcessFlush (vif : MutInput) : MutInput :=
  write vif true true true true 0xE2000000 0xEA000000 false "FLUSH"

def itemProcessHold (vif : MutInput) : MutInput :=
  write vif true true false false 0xE4000000 0xEC000000 false "HOLD"

def itemProcessReset (vif : MutInput) : MutInput :=
  write vif false false false false 0xD1000000 0xD8000000 false "RESET"

def itemProcessRandomWeighted (request : RandomWeighted) (vif : MutInput) : MutInput :=
  write vif request.m_reset request.m_is_advance request.m_is_flush request.m_is_valid
    request.m_i_binary request.m_i_number request.m_is_error "RANDOM_WEIGHTED"

def itemProcessValueFixed (request : ValueFixed) (vif : MutInput) : MutInput :=
  write vif request.m_reset request.m_is_advance request.m_is_flush request.m_is_valid
    request.m_i_binary request.m_i_number request.m_is_error request.m_prefix

def itemDispatch (item : Request) (vif : MutInput) : MutInput :=
  match item with
  | .error => itemProcessError vif
  | .flush => itemProcessFlush vif
  | .hold => itemProcessHold vif
  | .reset => itemProcessReset vif
  | .randomWeighted request => itemProcessRandomWeighted request vif
  | .valueFixed request => itemProcessValueFixed request vif

/-! ## What an item drives -/

/-- The input control bits a request asks for. -/
def controlsOf : Request → InputControls
  | .error => ⟨true, true, true, false, true⟩
  | .flush => ⟨true, true, false, true, true⟩
  | .hold => ⟨true, true, false, false, false⟩
  | .reset => ⟨false, false, false, false, false⟩
  | .randomWeighted r => ⟨r.m_reset, r.m_is_advance, r.m_is_error, r.m_is_flush, r.m_is_valid⟩
  | .valueFixed r => ⟨r.m_reset, r.m_is_advance, r.m_is_error, r.m_is_flush, r.m_is_valid⟩

/-- Every signal is written, so an item drives the same inputs whatever the
virtual interface held. -/
theorem itemDispatch_total (item : Request) (vif vif' : MutInput) :
    itemDispatch item vif = itemDispatch item vif' := by
  cases item <;> rfl

theorem write_data (vif : MutInput) (reset is_advance is_flush is_valid : Bool)
    (i_binary i_number : Word) (is_error : Bool) (string : String) :
    ~~~(write vif reset is_advance is_flush is_valid i_binary i_number is_error string).data.value =
      (write vif reset is_advance is_flush is_valid i_binary i_number is_error
        string).debug.i_binary :=
  BitVec.not_not

/-- Whatever the item, the data value driven is the complement of its binary. -/
theorem itemDispatch_data (item : Request) (vif : MutInput) :
    ~~~(itemDispatch item vif).data.value = (itemDispatch item vif).debug.i_binary := by
  cases item <;> exact write_data ..

/-- The inputs driven for a list of items, one clock each. -/
def driven (items : List Request) : List MutInput := items.map (itemDispatch · .powerUp)

/-- The driver writes item after item over what it wrote before. -/
def dispatchAll (vif : MutInput) : List Request → List MutInput
  | [] => []
  | item :: items => itemDispatch item vif :: dispatchAll (itemDispatch item vif) items

theorem dispatchAll_eq (vif : MutInput) (items : List Request) :
    dispatchAll vif items = driven items := by
  induction items generalizing vif with
  | nil => rfl
  | cons item items ih =>
      rw [dispatchAll, ih, driven, driven, List.map_cons, itemDispatch_total item vif .powerUp]

end Driver

end PipelineBench
