import PipelineBench.Foundation.Run
import PipelineBench.Model.Signals

/-!
# The single-cycle pipeline module

`EXAMPLE::single_cycle_t`: a combinational process `compute_advance` and a
clocked process `cycle`. Both read the signals as they stand and write the ones
the module owns; a write is seen by others only after the update phase, so a
process is a function from the signals read to the signals written.
-/

namespace PipelineBench.SingleCycle

open PipelineBench.Run

/-! ## `compute_advance` -/

/-- The value `compute_advance` writes to `out.is_advance`. -/
def computeAdvance (inp : MutInput) (out : MutOutput) : Bool :=
  -- "current" state as computed at start of cycle
  let state_is_stall := out.ctl.is_stall
  let state_is_valid := out.ctl.is_valid
  -- "current" state from next module
  let next_is_advance := inp.ctl.is_advance
  !state_is_stall && (!state_is_valid || next_is_advance)

/-- The outputs once `compute_advance` has run. -/
def settle (inp : MutInput) (out : MutOutput) : MutOutput :=
  { out with ctl := { out.ctl with is_advance := computeAdvance inp out } }

/-! ## `cycle` -/

structure CycleInput where
  reset : Bool
  is_advance : Bool
  is_flush : Bool
  is_valid : Bool
  value : Word
  i_binary : Word
  i_number : Word
  is_error : Bool
  string : String

structure CycleState where
  is_advance : Bool
  is_error : Bool
  is_stall : Bool
  is_valid : Bool
  value : Word
  i_binary : Word
  i_number : Word
  string : String

def readInput (inp : MutInput) : CycleInput where
  reset := inp.ctl.reset
  is_advance := inp.ctl.is_advance
  is_flush := inp.ctl.is_flush
  is_valid := inp.ctl.is_valid
  value := inp.data.value
  i_binary := inp.debug.i_binary
  i_number := inp.debug.i_number
  is_error := inp.debug.is_error
  string := inp.debug.string

def readState (out : MutOutput) : CycleState where
  is_advance := out.ctl.is_advance
  is_error := out.ctl.is_error
  is_stall := out.ctl.is_stall
  is_valid := out.ctl.is_valid
  value := out.data.value
  i_binary := out.debug.i_binary
  i_number := out.debug.i_number
  string := out.debug.string

/-- The exception of the stall branch, spelt as the source spells it. -/
def stallError : Abort := .logicError "Single-Vycle modules ought never stall."

/-- The five branches of `cycle`, on the local copies. -/
def nextState (inp : CycleInput) (state : CycleState) : Except Abort CycleState :=
  if inp.reset = false then
    .ok { state with
      is_error := false
      is_stall := false
      is_valid := false
      string := "RESET: " ++ inp.string }
  else if inp.is_flush then
    .ok { state with
      is_error := state.is_error || inp.is_error
      is_stall := false
      is_valid := false
      string := "FLUSH: " ++ inp.string }
  else if state.is_stall then
    -- the local copy is updated here too, but the throw comes before any write
    .error stallError
  else if state.is_advance then
    .ok { state with
      is_error := state.is_error || inp.is_error
      is_stall := false
      is_valid := inp.is_valid
      value := ~~~inp.value
      i_binary := inp.i_binary
      i_number := inp.i_number
      string := "ADVANCE: " ++ inp.string }
  else
    .ok { state with
      is_error := state.is_error || inp.is_error
      string := "NOP: " ++ inp.string }

/-- The writes that close `cycle`. `out.is_advance` belongs to
`compute_advance`; `cycle` copies what it read to the debug channel. -/
def writeOutputs (state : CycleState) (out : MutOutput) : MutOutput where
  ctl := ⟨out.ctl.is_advance, state.is_error, state.is_stall, state.is_valid⟩
  data := ⟨state.value⟩
  debug := ⟨state.i_binary, state.i_number, state.is_advance, state.string⟩

def cycle (inp : MutInput) (out : MutOutput) : Except Abort MutOutput :=
  match nextState (readInput inp) (readState out) with
  | .error e => .error e
  | .ok state => .ok (writeOutputs state out)

/-- One rising edge: `compute_advance` has settled, then `cycle` runs once. -/
def edge (out : MutOutput) (inp : MutInput) : Except Abort MutOutput :=
  cycle inp (settle inp out)

/-- SystemC runs both methods once at initialisation, on signals at power up. -/
def initialise : Except Abort MutOutput :=
  match cycle MutInput.powerUp MutOutput.powerUp with
  | .error e => .error e
  | .ok out =>
      .ok { out with ctl :=
        { out.ctl with is_advance := computeAdvance MutInput.powerUp MutOutput.powerUp } }

/-- The outputs after initialisation: reset, and ready for a datum. -/
def initialised : MutOutput where
  ctl := ⟨true, false, false, false⟩
  data := ⟨0⟩
  debug := ⟨0, 0, false, "RESET: "⟩

theorem initialise_eq : initialise = .ok initialised := by
  simp [initialise, cycle, nextState, readInput, writeOutputs, readState, computeAdvance,
    initialised, MutInput.powerUp, MutOutput.powerUp]

/-! ## What one edge does -/

/-- The stage takes the offered inputs at this edge. -/
def Advances (out : MutOutput) (inp : MutInput) : Prop :=
  inp.ctl.reset = true ∧ inp.ctl.is_flush = false ∧ computeAdvance inp out = true

/-- The stage drops whatever it holds at this edge. -/
def Discards (inp : MutInput) : Prop :=
  inp.ctl.reset = false ∨ inp.ctl.is_flush = true

instance (out : MutOutput) (inp : MutInput) : Decidable (Advances out inp) := by
  unfold Advances; infer_instance

instance (inp : MutInput) : Decidable (Discards inp) := by
  unfold Discards; infer_instance

theorem not_discards_iff {inp : MutInput} :
    ¬ Discards inp ↔ inp.ctl.reset = true ∧ inp.ctl.is_flush = false := by
  simp [Discards]

theorem computeAdvance_of_unstalled {inp : MutInput} {out : MutOutput}
    (h : out.ctl.is_stall = false) :
    computeAdvance inp out = (!out.ctl.is_valid || inp.ctl.is_advance) := by
  simp [computeAdvance, h]

/-- What an edge writes from a state that does not stall, the diagnostic string
aside. The debug copy of the advance is the settled one in every branch. -/
structure EdgeSpec (out : MutOutput) (inp : MutInput) (out' : MutOutput) : Prop where
  is_stall : out'.ctl.is_stall = false
  is_error : out'.ctl.is_error =
    (inp.ctl.reset && (out.ctl.is_error || inp.debug.is_error))
  is_valid : out'.ctl.is_valid =
    if Discards inp then false
    else if computeAdvance inp out then inp.ctl.is_valid
    else out.ctl.is_valid
  value : out'.data.value =
    if Advances out inp then ~~~inp.data.value else out.data.value
  i_binary : out'.debug.i_binary =
    if Advances out inp then inp.debug.i_binary else out.debug.i_binary
  i_number : out'.debug.i_number =
    if Advances out inp then inp.debug.i_number else out.debug.i_number
  captured : out'.debug.is_advance = computeAdvance inp out

/-- The branches taken without a stall, and what each leaves. -/
theorem nextState_cases (inp : CycleInput) {state : CycleState} (h : state.is_stall = false) :
    ∃ state', nextState inp state = .ok state' ∧
      ((inp.reset = false ∧ state' = { state with
          is_error := false, is_stall := false, is_valid := false
          string := "RESET: " ++ inp.string }) ∨
        (inp.reset = true ∧ inp.is_flush = true ∧ state' = { state with
          is_error := state.is_error || inp.is_error, is_stall := false, is_valid := false
          string := "FLUSH: " ++ inp.string }) ∨
        (inp.reset = true ∧ inp.is_flush = false ∧ state.is_advance = true ∧ state' = { state with
          is_error := state.is_error || inp.is_error, is_stall := false, is_valid := inp.is_valid
          value := ~~~inp.value, i_binary := inp.i_binary, i_number := inp.i_number
          string := "ADVANCE: " ++ inp.string }) ∨
        (inp.reset = true ∧ inp.is_flush = false ∧ state.is_advance = false ∧ state' = { state with
          is_error := state.is_error || inp.is_error
          string := "NOP: " ++ inp.string })) := by
  unfold nextState
  cases hr : inp.reset with
  | false => exact ⟨_, rfl, Or.inl ⟨rfl, rfl⟩⟩
  | true =>
      cases hf : inp.is_flush with
      | true => exact ⟨_, rfl, Or.inr (Or.inl ⟨rfl, rfl, rfl⟩)⟩
      | false =>
          rw [h]
          cases ha : state.is_advance with
          | true => exact ⟨_, rfl, Or.inr (Or.inr (Or.inl ⟨rfl, rfl, rfl, rfl⟩))⟩
          | false => exact ⟨_, rfl, Or.inr (Or.inr (Or.inr ⟨rfl, rfl, rfl, rfl⟩))⟩

theorem nextState_unstalled (inp : CycleInput) {state : CycleState}
    (h : state.is_stall = false) :
    ∃ state', nextState inp state = .ok state' ∧ state'.is_stall = false := by
  rcases nextState_cases inp h with ⟨state', hnext, hcases⟩
  refine ⟨state', hnext, ?_⟩
  rcases hcases with ⟨-, rfl⟩ | ⟨-, -, rfl⟩ | ⟨-, -, -, rfl⟩ | ⟨-, -, -, rfl⟩
  · rfl
  · rfl
  · rfl
  · exact h

theorem cycle_unstalled {out : MutOutput} (inp : MutInput) (h : out.ctl.is_stall = false) :
    ∃ out', cycle inp out = .ok out' ∧ out'.ctl.is_stall = false := by
  have hread : (readState out).is_stall = false := h
  rcases nextState_unstalled (readInput inp) hread with ⟨state, hnext, hs⟩
  refine ⟨writeOutputs state out, ?_, hs⟩
  rw [cycle, hnext]

/-- A stage that does not stall steps without the exception. -/
theorem edge_spec {out : MutOutput} (inp : MutInput) (h : out.ctl.is_stall = false) :
    ∃ out', edge out inp = .ok out' ∧ EdgeSpec out inp out' := by
  have hread : (readState (settle inp out)).is_stall = false := h
  rcases nextState_cases (readInput inp) hread with ⟨state, hnext, hcases⟩
  refine ⟨writeOutputs state (settle inp out), ?_, ?_⟩
  · rw [edge, cycle, hnext]
  · simp only [readInput, readState, settle] at hcases
    rcases hcases with ⟨hr, rfl⟩ | ⟨hr, hf, rfl⟩ | ⟨hr, hf, ha, rfl⟩ | ⟨hr, hf, ha, rfl⟩
    · constructor <;> simp [writeOutputs, settle, Advances, Discards, hr]
    · constructor <;> simp [writeOutputs, settle, Advances, Discards, hr, hf]
    · constructor <;> simp [writeOutputs, settle, Advances, Discards, hr, hf, ha]
    · constructor <;> simp [writeOutputs, settle, Advances, Discards, hr, hf, ha, h]

/-- An edge that resets or flushes needs no assumption on the state before it. -/
theorem edge_discards (out : MutOutput) {inp : MutInput} (h : Discards inp) :
    ∃ out', edge out inp = .ok out' ∧ EdgeSpec out inp out' := by
  unfold edge cycle nextState
  cases hr : inp.ctl.reset with
  | false =>
      refine ⟨_, by simp only [readInput, hr, if_true]; rfl, ?_⟩
      constructor <;> simp [writeOutputs, readState, settle, Advances, Discards, hr]
  | true =>
      have hf : inp.ctl.is_flush = true := by
        rcases h with h | h
        · rw [hr] at h
          cases h
        · exact h
      refine ⟨_, by simp only [readInput, hr, hf, if_true, if_false, Bool.true_eq_false]; rfl, ?_⟩
      constructor <;> simp [writeOutputs, readState, settle, Advances, Discards, hr, hf]

theorem edge_reset (out : MutOutput) {inp : MutInput} (h : inp.ctl.reset = false) :
    ∃ out', edge out inp = .ok out' ∧ out'.ctl.is_stall = false ∧ out'.ctl.is_valid = false := by
  have hdis : Discards inp := Or.inl h
  rcases edge_discards out hdis with ⟨out', hedge, hspec⟩
  refine ⟨out', hedge, hspec.is_stall, ?_⟩
  rw [hspec.is_valid, if_pos hdis]

/-- The exception, which only a stalled stage meets. -/
theorem edge_stalled {out : MutOutput} {inp : MutInput} (hs : out.ctl.is_stall = true)
    (hgo : ¬ Discards inp) : edge out inp = .error stallError := by
  rcases not_discards_iff.mp hgo with ⟨hr, hf⟩
  simp [edge, cycle, nextState, readInput, readState, settle, hr, hf, hs]

/-- Whatever the state, an edge meets its specification or the exception. -/
theorem edge_cases (out : MutOutput) (inp : MutInput) :
    (out.ctl.is_stall = true ∧ ¬ Discards inp ∧ edge out inp = .error stallError) ∨
      ∃ out', edge out inp = .ok out' ∧ EdgeSpec out inp out' := by
  by_cases hdis : Discards inp
  · exact Or.inr (edge_discards out hdis)
  · cases hs : out.ctl.is_stall with
    | false => exact Or.inr (edge_spec inp hs)
    | true => exact Or.inl ⟨rfl, hdis, edge_stalled hs hdis⟩

/-- No state of a run that starts unstalled stalls. -/
def Unstalled (out : MutOutput) : Prop := out.ctl.is_stall = false

theorem initialised_unstalled : Unstalled initialised := rfl

theorem edge_total : Total edge Unstalled := by
  intro out inp h
  obtain ⟨out', hout, hspec⟩ := edge_spec inp h
  exact ⟨out', hout, hspec.is_stall⟩

theorem edgeSpec_of_edge {out out' : MutOutput} {inp : MutInput} (h : Unstalled out)
    (he : edge out inp = .ok out') : EdgeSpec out inp out' := by
  obtain ⟨out'', hout, hspec⟩ := edge_spec inp h
  rw [he, Except.ok.injEq] at hout
  exact hout ▸ hspec

end PipelineBench.SingleCycle
