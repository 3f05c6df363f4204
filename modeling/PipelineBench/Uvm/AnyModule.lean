import PipelineBench.Foundation.SelfCheck
import PipelineBench.Uvm.Test

/-!
# The UVM bench beside any module

The test is bound to the signals of the virtual interface, so the driver, the
monitor and the score boards are the same beside any module that owns the
outputs. This is the program of `Uvm.Test` with the module as a parameter, and as
there it stands for run phases that end of their own.
-/

namespace PipelineBench.AnyModule

open Run Monitor UvmTest Sequence

/-- A module under test: what a rising edge does to it, and its outputs once they
have settled beside the inputs. -/
structure ModuleUnderTest (σ : Type) where
  edge : σ → MutInput → Except Abort σ
  outputs : σ → MutInput → MutOutput

/-- `mut` of `sc_main`. -/
def shipped : ModuleUnderTest MutOutput where
  edge := SingleCycle.edge
  outputs out inp := SingleCycle.settle inp out

/-- `Bench`, with the state of the module in place of its signals. -/
structure World (σ : Type) where
  state : σ
  inp : MutInput
  pending : List MutInput
  monitor : Thread
  transmitted : List SingleCycleTransaction

variable {σ : Type} (m : ModuleUnderTest σ)

/-- What the monitor samples between two edges. -/
def sample (s : σ) (inp : MutInput) : Sample := ⟨sampleState (m.outputs s inp), sampleStimuli inp⟩

namespace World

/-- Ready for the first rising edge. -/
def start (s : σ) (driven : List MutInput) (signals : Transaction.SingleCycleSignals) : World σ :=
  let (inp, pending) := Bench.drive .powerUp driven
  { state := s
    inp := inp
    pending := pending
    monitor := { spawn signals with point := .startWait }
    transmitted := [] }

def clock (w : World σ) : Except Abort (World σ) :=
  match m.edge w.state w.inp with
  | .error e => .error e
  | .ok state =>
      match resume (sample m w.state w.inp) wakeFuel w.monitor with
      | .error e => .error e
      | .ok (t, sent) =>
          let (inp, pending) := Bench.drive w.inp w.pending
          .ok
            { state := state
              inp := inp
              pending := pending
              monitor := t
              transmitted := w.transmitted ++ sent }

def run (w : World σ) : ℕ → Except Abort (World σ)
  | 0 => .ok w
  | n + 1 => (run w n).bind (clock m)

end World

/-! ## The program -/

section Program

variable (beyond : ℕ → Char) (g : Request.Generator) (signals : Transaction.SingleCycleSignals)

/-- `run_phase` once the sequences have sent their items. -/
def observe (t : UvmTest) (s : σ) (idle : ℕ) (items : List Request) (clocks : ℕ) :
    Except Abort UvmTest := do
  let w ← (World.start s (drivenInputs idle items) signals).run m clocks
  let m_test_bench ← t.m_test_bench.writes w.transmitted
  return { t with m_test_bench }

def runTest (s : σ) (sequences : List TestSequence) (idle clocks : ℕ) :
    Except Abort (PassFailReport × ConfigDb) := do
  let items ← startAll beyond g sequences
  let t ← observe m signals buildPhase s idle items clocks
  return t.extractPhase.reportPhase

def scMain (s : σ) (sequences : List TestSequence) (idle clocks : ℕ) : Option ℤ :=
  match runTest m beyond g signals s sequences idle clocks with
  | .ok (_, db) => some (db.return_code.getD UvmReturnCode.notSet.toInt)
  | .error (.uvmFatal _ _) => some UvmReturnCode.uvmFatal.toInt
  | .error _ => none

end Program

/-! ## The module that ships -/

/-- The bench of the module that ships. -/
def World.toBench (w : World MutOutput) : Bench where
  inp := w.inp
  out := SingleCycle.settle w.inp w.state
  pending := w.pending
  monitor := w.monitor
  transmitted := w.transmitted

theorem toBench_start (driven : List MutInput) (signals : Transaction.SingleCycleSignals) :
    (World.start SingleCycle.initialised driven signals).toBench = Bench.start driven signals :=
  rfl

theorem toBench_clock (w : World MutOutput) :
    w.toBench.clock = (w.clock shipped).map World.toBench := by
  have hcycle : SingleCycle.cycle w.toBench.inp w.toBench.out = shipped.edge w.state w.inp := rfl
  have hsample : (⟨sampleState w.toBench.out, sampleStimuli w.toBench.inp⟩ : Sample) =
      sample shipped w.state w.inp := rfl
  rw [Bench.clock, World.clock, hcycle, hsample]
  cases shipped.edge w.state w.inp with
  | error e => rfl
  | ok state =>
      simp only [World.toBench]
      cases resume (sample shipped w.state w.inp) wakeFuel w.monitor <;> rfl

theorem toBench_run (w : World MutOutput) (n : ℕ) :
    w.toBench.run n = (w.run shipped n).map World.toBench := by
  induction n with
  | zero => rfl
  | succ n ih =>
      rw [Bench.run, ih, World.run]
      cases w.run shipped n with
      | error e => rfl
      | ok w' => exact toBench_clock w'

/-- Beside the module that ships it is the program that ships. -/
theorem runTest_shipped (beyond : ℕ → Char) (g : Request.Generator)
    (signals : Transaction.SingleCycleSignals) (sequences : List TestSequence)
    (idle clocks : ℕ) :
    runTest shipped beyond g signals SingleCycle.initialised sequences idle clocks =
      UvmTest.runTest beyond g signals sequences idle clocks := by
  simp only [runTest, UvmTest.runTest, observe, runPhase, bind, Except.bind]
  cases startAll beyond g sequences with
  | error e => rfl
  | ok items =>
      simp only [← toBench_start, toBench_run]
      cases (World.start SingleCycle.initialised (drivenInputs idle items) signals).run shipped
          clocks with
      | error e => rfl
      | ok w => rfl

theorem scMain_shipped (beyond : ℕ → Char) (g : Request.Generator)
    (signals : Transaction.SingleCycleSignals) (sequences : List TestSequence)
    (idle clocks : ℕ) :
    scMain shipped beyond g signals SingleCycle.initialised sequences idle clocks =
      UvmTest.scMain beyond g signals sequences idle clocks := by
  rw [scMain, runTest_shipped]
  rfl

end PipelineBench.AnyModule
