import PipelineBench.Foundation.DeltaCycle
import PipelineBench.Unit.Spin

/-!
# The unit bench under the SystemC kernel

Four processes share the signals bound in `sc_main`: the clock, the thread
`spin` and the two methods of the module. The clock rises at 0, 1, 2 seconds and
so on; no process is sensitive to its falling edge, which is left out. The
thread sleeps for two seconds and from then on waits for the rising edge.
-/

namespace PipelineBench.SpinKernel

open PipelineBench.SingleCycle PipelineBench.EvilTest PipelineBench.DeltaCycle

inductive Process where
  | clock
  | spin
  | cycle
  | computeAdvance
  deriving DecidableEq, Repr

/-- Where `spin` stands between two calls of the kernel, with what it holds. -/
inductive Thread where
  | entry (logger : Logger)
  /-- in `wait(2, SC::sec)` -/
  | sleep (logger : Logger)
  | firstWait (locals : Locals)
  /-- in the wait ahead of iteration `n` -/
  | top (n : ℕ) (locals : Locals)
  /-- `SC::stop` has been called -/
  | stopped (logger : Logger)

/-- Stands in a wait for the rising edge. -/
def Thread.waits : Thread → Bool
  | .firstWait _ => true
  | .top _ _ => true
  | _ => false

/-- Run the thread up to its next wait: it reads the outputs of the module as
they stand and writes some of the inputs. -/
def resume (rand : ℕ → BitVec 64) (garbage : TestInformation) (seen : MutOutput)
    (inp : MutInput) : Thread → Except Abort (Thread × MutInput)
  | .entry logger => .ok (.sleep logger, inp)
  | .sleep logger =>
      (firstReset logger garbage inp).map fun (locals, inp') => (.firstWait locals, inp')
  | .firstWait locals =>
      let (locals', inp') := secondReset locals inp
      .ok (.top 0 locals', inp')
  | .top n locals =>
      if n < Spin.iterations then
        (iteration n (rand n) seen locals inp).map fun (locals', inp') =>
          (.top (n + 1) locals', inp')
      else .ok (.stopped locals.logger.endGroup, inp)
  | .stopped logger => .ok (.stopped logger, inp)

structure Sim where
  /-- current values of the signals -/
  inp : MutInput
  out : MutOutput
  /-- values that become current at the next update -/
  nextInp : MutInput
  nextOut : MutOutput
  /-- the clock signal rises at the next update -/
  rising : Bool
  /-- rising edges so far; the next one is due at as many seconds -/
  edges : ℕ
  spin : Thread
  runnable : List Process

section Kernel

variable (rand : ℕ → BitVec 64) (garbage : TestInformation)

/-- What `cycle` has written, with the advance of `compute_advance`. -/
def withAdvance (out : MutOutput) (is_advance : Bool) : MutOutput :=
  { out with ctl := { out.ctl with is_advance := is_advance } }

/-- Run one process up to its next wait. Every signal has one writer. -/
def evaluate (s : Sim) : Process → Except Abort Sim
  | .clock => .ok { s with rising := true }
  | .spin =>
      match resume rand garbage s.out s.nextInp s.spin with
      | .error e => .error e
      | .ok (t, inp) => .ok { s with nextInp := inp, spin := t }
  | .cycle =>
      match SingleCycle.cycle s.inp s.out with
      | .error e => .error e
      | .ok out => .ok { s with nextOut := withAdvance out s.nextOut.ctl.is_advance }
  | .computeAdvance =>
      .ok { s with nextOut := withAdvance s.nextOut (SingleCycle.computeAdvance s.inp s.out) }

/-- A signal in the sensitivity list of `compute_advance` changes its value. -/
def senses (s : Sim) : Bool :=
  s.nextInp.ctl.is_advance != s.inp.ctl.is_advance ||
  s.nextOut.ctl.is_stall != s.out.ctl.is_stall ||
  s.nextOut.ctl.is_valid != s.out.ctl.is_valid

/-- The processes a rising edge makes runnable. -/
def woken (t : Thread) : List Process := .cycle :: if t.waits then [.spin] else []

/-- The processes due at a rising edge, `edges` of which have been before it. -/
def timed (edges : ℕ) : Thread → List Process
  | .sleep _ => if edges = 2 then [.clock, .spin] else [.clock]
  | _ => [.clock]

/-- Once `SC::stop` has been called the delta cycle is the last. -/
def update (s : Sim) : Sim :=
  { s with
    inp := s.nextInp
    out := s.nextOut
    rising := false
    runnable :=
      match s.spin with
      | .stopped _ => []
      | _ => (if s.rising then woken s.spin else []) ++ if senses s then [.computeAdvance] else [] }

def advance (s : Sim) : Sim :=
  match s.spin with
  | .stopped _ => s
  | _ => { s with edges := s.edges + 1, runnable := timed s.edges s.spin }

def kernel : Kernel Abort Sim Process where
  runnable := Sim.runnable
  enter := fun s => { s with runnable := [] }
  evaluate := evaluate rand garbage
  update := update
  advance := advance

/-- Every process but the clock runs once at initialisation. -/
def powerUp : Sim where
  inp := .powerUp
  out := .powerUp
  nextInp := .powerUp
  nextOut := .powerUp
  rising := false
  edges := 0
  spin := .entry .fresh
  runnable := [.spin, .cycle, .computeAdvance]

end Kernel

end PipelineBench.SpinKernel
