import PipelineBench.Unit.EvilTest

/-!
# The unit test program

`spin` of `TEST/EXAMPLE/single_cycle.h` and `sc_main` of
`test-EXAMPLE-single_cycle.cpp`. The test is bound to signals, so it is the same
beside any module that owns the outputs it reads. The time stamps and the
progress printed on the way are left out.
-/

namespace PipelineBench.Spin

open PipelineBench.EvilTest

/-- A module under test: what a rising edge does to it, and its outputs. -/
structure ModuleUnderTest (σ : Type) where
  edge : σ → MutInput → Except Abort σ
  outputs : σ → MutOutput

/-- `MUT0` of `sc_main`. -/
def mut0 : ModuleUnderTest MutOutput := ⟨SingleCycle.edge, id⟩

structure Beside (σ : Type) where
  state : σ
  inp : MutInput
  locals : Locals

variable {σ : Type} (m : ModuleUnderTest σ)

/-- At one rising edge the module consumes the inputs as they stand, and the
thread sees the outputs as they stand. -/
def together (s : σ) (inp : MutInput) (thread : Except Abort (Locals × MutInput)) :
    Except Abort (Beside σ) :=
  match thread with
  | .error e => .error e
  | .ok (locals, inp') => (m.edge s inp).map fun s' => ⟨s', inp', locals⟩

/-- The state at the top of iteration `n`. -/
def doTestEvil (rand : ℕ → BitVec 64) (logger : Logger) (garbage : TestInformation)
    (s : σ) (inp : MutInput) : ℕ → Except Abort (Beside σ)
  | 0 =>
      (together m s inp (firstReset logger garbage inp)).bind fun w =>
        together m w.state w.inp (.ok (secondReset w.locals w.inp))
  | n + 1 =>
      (doTestEvil rand logger garbage s inp n).bind fun w =>
        together m w.state w.inp
          (iteration n (rand n) (m.outputs w.state) w.locals w.inp)

/-- The edges at which the thread waits and no signal is written. -/
def idle (inp : MutInput) : ℕ → σ → Except Abort σ
  | 0, s => .ok s
  | n + 1, s => (m.edge s inp).bind (idle inp n)

/-- The bound of the loop of `do_test_evil`. -/
def iterations : ℕ := 100000

/-- The logger once the simulation has ended: after `clocks` edges, or where
`spin` stops it. The wait of two seconds takes `waits` of the edges. -/
def start (rand : ℕ → BitVec 64) (garbage : TestInformation) (waits clocks : ℕ) (logger : Logger)
    (s : σ) (inp : MutInput) : Except Abort Logger := do
  let s ← idle m inp (min clocks waits) s
  if clocks ≤ waits then
    return logger
  else if clocks = waits + 1 then
    let w ← together m s inp (firstReset logger garbage inp)
    return w.locals.logger
  else
    let w ← doTestEvil m rand logger garbage s inp (min (clocks - (waits + 2)) iterations)
    if clocks ≤ waits + 2 + iterations then
      return w.locals.logger
    else
      -- the edge after the last iteration ends the group and stops the simulation
      return w.locals.logger.endGroup

/-- In clock periods of one second. -/
def runTime : ℕ := 1000 * 1000

/-- `sc_main` over a run of `clocks` periods: what the logger prints, and the
value returned. -/
def scMain (rand : ℕ → BitVec 64) (garbage : TestInformation) (waits clocks : ℕ) (s : σ) :
    Except Abort (Logger.Printed × ℤ) := do
  let logger ← start m rand garbage waits clocks .fresh s .powerUp
  let printed ← logger.output
  return (printed, 0)

end PipelineBench.Spin
