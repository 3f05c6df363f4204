import PipelineBench.Uvm.Bench
import PipelineBench.Uvm.Driver
import PipelineBench.Uvm.Sequence
import PipelineBench.Uvm.TestBench

/-!
# The test and its program

`test.h` and `uvm-EXAMPLE-single_cycle.cpp`: the phases of the test, what the
report phase puts in the configuration database, and the code `sc_main` returns.
When the driver has its first item and when the run phase ends is the library's
choice, so both are parameters. What the library makes of a run phase that is out
of time with items pending is not modelled; `Finishes` excludes it.
-/

namespace PipelineBench

open Request Sequence

/-! ## Return codes -/

/-- `utility::uvm_return_code_t`. -/
inductive UvmReturnCode where
  | success
  | uvmFatal
  | testFail
  | notSet
  deriving DecidableEq, Repr

/-- `static_cast<int>`. -/
def UvmReturnCode.toInt : UvmReturnCode → ℤ
  | .success => 0
  | .uvmFatal => 1
  | .testFail => 2
  | .notSet => 3

namespace UvmTest

inductive Severity where
  | info
  | error
  deriving DecidableEq, Repr

structure PassFailReport where
  severity : Severity
  id : String
  message : String
  deriving DecidableEq, Repr

/-- `return_code` in the configuration database, absent until it is set. -/
structure ConfigDb where
  return_code : Option ℤ
  deriving DecidableEq, Repr

end UvmTest

open UvmTest

/-! ## `test::base_t` -/

/-- `test::base_t` once `build_phase` has made the test bench; the printer only
prints. -/
structure UvmTest where
  m_pass : Bool
  m_test_bench : TestBench

namespace UvmTest

def buildPhase : UvmTest := ⟨false, .built⟩

/-- `extract_phase`: the test bench knows about passing. -/
def extractPhase (t : UvmTest) : UvmTest := { t with m_pass := t.m_test_bench.isPass }

def reportPhase (t : UvmTest) : PassFailReport × ConfigDb :=
  let report :=
    if t.m_pass then
      ⟨.info, "PASS/FAIL", "** UVM TEST PASSED **"⟩
    else
      ⟨.error, "PASS/FAIL", "** UVM TEST FAIL **"⟩
  let result := if t.m_pass then UvmReturnCode.success else UvmReturnCode.testFail
  (report, ⟨some result.toInt⟩)

/-! ## `test::EXAMPLE::single_cycle_t` -/

/-- The sequences of `run_phase`, in the order they are started. -/
def sequences : List TestSequence :=
  let byDefault (kind : Kind) : TestSequence := .make kind (TestSequence.countDefault kind)
  [byDefault .repeatT, .make .repeatT 1, .make .repeatT 5, byDefault .allControlPairs,
    byDefault .randomWeighted, byDefault .randomLoop, byDefault .flushWAdvanceNeverAdvances,
    byDefault .errorWAdvanceValid, byDefault .resetAdvanceWithOutValid]

/-- The inputs of a run: `idle` clocks, then one for each item. -/
def drivenInputs (idle : ℕ) (items : List Request) : List MutInput :=
  List.replicate idle .powerUp ++ Driver.dispatchAll .powerUp items

/-- `run_time` in clock periods, the timeout that `sc_main` sets. -/
def runTime : ℕ := 1 * 1000 * 1000

/-- The run phase ends of its own after `clocks` clocks: the objection is dropped
once the driver is done with the last item, and before the timeout. -/
structure Finishes (idle : ℕ) (items : List Request) (clocks : ℕ) : Prop where
  consumed : idle + items.length ≤ clocks
  in_time : clocks ≤ runTime

theorem Finishes.lt {idle : ℕ} {items : List Request} {clocks : ℕ}
    (h : Finishes idle items clocks) : clocks < 2 ^ 32 :=
  lt_of_le_of_lt h.in_time (by decide)

section Program

variable (beyond : ℕ → Char) (g : Generator) (signals : Transaction.SingleCycleSignals)

/-- `run_phase` with the given sequences; it lasts for `clocks` clocks. The
score boards are written to by the monitor as it transmits. -/
def runPhase (t : UvmTest) (sequences : List TestSequence) (idle clocks : ℕ) :
    Except Abort UvmTest := do
  let items ← startAll beyond g sequences
  let bench ← (Bench.start (drivenInputs idle items) signals).run clocks
  let m_test_bench ← t.m_test_bench.writes bench.transmitted
  return { t with m_test_bench }

/-- `uvm::run_test`, when the run phase ends of its own. -/
def runTest (sequences : List TestSequence) (idle clocks : ℕ) :
    Except Abort (PassFailReport × ConfigDb) := do
  let t ← runPhase beyond g signals buildPhase sequences idle clocks
  return t.extractPhase.reportPhase

/-- `sc_main`. A fatality ends the program with its own code; any other
exception leaves it without one. -/
def scMain (sequences : List TestSequence) (idle clocks : ℕ) : Option ℤ :=
  match runTest beyond g signals sequences idle clocks with
  | .ok (_, db) => some (db.return_code.getD UvmReturnCode.notSet.toInt)
  | .error (.uvmFatal _ _) => some UvmReturnCode.uvmFatal.toInt
  | .error _ => none

end Program

end UvmTest

end PipelineBench
