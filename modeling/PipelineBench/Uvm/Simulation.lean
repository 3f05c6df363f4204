import PipelineBench.Foundation.DeltaCycle
import PipelineBench.Model.SingleCycle
import PipelineBench.Uvm.Monitor

/-!
# The bench under the SystemC kernel

Four processes share the signals of the virtual interface: the driver thread,
the two methods of the module and the monitor thread. Each reads the signals as
they stand and writes values that the next update makes current. The kernel
chooses the order within a delta cycle. What the clock does between two rising
edges wakes none of them and is no step.
-/

namespace PipelineBench.Simulation

open PipelineBench.SingleCycle PipelineBench.Monitor PipelineBench.DeltaCycle

inductive Process where
  | driver
  | cycle
  | computeAdvance
  | monitor
  deriving DecidableEq, Repr

/-- The driver thread, between two calls of the kernel: the inputs it is still
to drive, one for each item, and whether it stands in `do_wait_for_clock`. When
there is no item left it blocks in `get_next_item`. -/
structure DriverThread where
  pending : List MutInput
  waiting : Bool

structure Sim where
  /-- current values of the signals -/
  inp : MutInput
  out : MutOutput
  /-- values that become current at the next update -/
  nextInp : MutInput
  nextOut : MutOutput
  driver : DriverThread
  monitor : Thread
  transmitted : List SingleCycleTransaction
  runnable : List Process

/-- What the monitor sees of the current signals. -/
def Sim.seen (s : Sim) : Sample := ⟨sampleState s.out, sampleStimuli s.inp⟩

/-- Run one process up to its next wait. Every field of `nextOut` has one
writer: `compute_advance` writes `ctl.is_advance` and `cycle` all the others. -/
def evaluate (s : Sim) : Process → Except Abort Sim
  | .driver =>
      match s.driver.pending with
      | [] => .ok { s with driver := ⟨[], false⟩ }
      | i :: rest => .ok { s with nextInp := i, driver := ⟨rest, true⟩ }
  | .cycle =>
      match SingleCycle.cycle s.inp s.out with
      | .error e => .error e
      | .ok out =>
          .ok { s with nextOut :=
            { out with ctl := { out.ctl with is_advance := s.nextOut.ctl.is_advance } } }
  | .computeAdvance =>
      .ok { s with nextOut :=
        { s.nextOut with ctl :=
          { s.nextOut.ctl with is_advance := SingleCycle.computeAdvance s.inp s.out } } }
  | .monitor =>
      match resume s.seen wakeFuel s.monitor with
      | .error e => .error e
      | .ok (t, sent) => .ok { s with monitor := t, transmitted := s.transmitted ++ sent }

/-- A signal in the sensitivity list of `compute_advance` changes its value. -/
def senses (s : Sim) : Bool :=
  s.nextInp.ctl.is_advance != s.inp.ctl.is_advance ||
  s.nextOut.ctl.is_stall != s.out.ctl.is_stall ||
  s.nextOut.ctl.is_valid != s.out.ctl.is_valid

def update (s : Sim) : Sim :=
  { s with
    inp := s.nextInp
    out := s.nextOut
    runnable := if senses s then [.computeAdvance] else [] }

/-- The rising edge of the clock runs `cycle` and wakes the threads that wait
for it. -/
def posedge (s : Sim) : Sim :=
  { s with runnable :=
      (if s.driver.waiting then [.driver] else []) ++ [.cycle] ++
      (if s.monitor.point = .startWait ∨ s.monitor.point = .waitWait then [.monitor] else []) }

def kernel : Kernel Abort Sim Process where
  runnable := Sim.runnable
  enter := fun s => { s with runnable := [] }
  evaluate := evaluate
  update := update
  advance := posedge

/-- Before the first delta cycle: signals at power up, both methods due to run
once, both threads spawned. `signals` is what the monitor's local holds. -/
def powerUp (driven : List MutInput) (signals : Transaction.SingleCycleSignals) : Sim where
  inp := .powerUp
  out := .powerUp
  nextInp := .powerUp
  nextOut := .powerUp
  driver := ⟨driven, false⟩
  monitor := spawn signals
  transmitted := []
  runnable := [.driver, .cycle, .computeAdvance, .monitor]

/-! ## The order of evaluation is not observable -/

/-- The monitor stands before its first statement or in one of its waits. -/
inductive Standing : Thread → Prop
  | spawned (signals) : Standing (spawn signals)
  | start (signals) : Standing { spawn signals with point := .startWait }
  | armed {seen t} : Armed seen t → Standing t

theorem resume_standing {t : Thread} (h : Standing t) (seen : Sample) :
    ∃ t' sent, resume seen wakeFuel t = .ok (t', sent) ∧ Standing t' := by
  cases h with
  | spawned signals => exact ⟨_, _, resume_spawn 0 signals seen, .start signals⟩
  | start signals =>
      obtain ⟨t', hres, harmed⟩ := resume_start 0 signals seen
      exact ⟨t', [], hres, .armed harmed⟩
  | armed harmed =>
      obtain ⟨t', hres, harmed'⟩ := resume_armed 0 seen harmed
      exact ⟨t', _, hres, .armed harmed'⟩

/-- In the middle of a delta cycle, with the processes of `due` not yet run. -/
structure Due (due : List Process) (s : Sim) : Prop where
  unstalled : Unstalled s.out
  next_unstalled : Unstalled s.nextOut
  standing : Standing s.monitor
  computed : .computeAdvance ∉ due →
    s.nextOut.ctl.is_advance = SingleCycle.computeAdvance s.inp s.out
  idle : s.runnable = []

/-- Between two delta cycles. -/
structure Inv (s : Sim) : Prop where
  inp_current : s.nextInp = s.inp
  out_current : s.nextOut = s.out
  unstalled : Unstalled s.out
  standing : Standing s.monitor
  computed : .computeAdvance ∉ s.runnable →
    s.out.ctl.is_advance = SingleCycle.computeAdvance s.inp s.out

/-- A process that writes neither the advance nor the current signals leaves
`compute_advance` as due as it was. -/
theorem due_of_other {p : Process} {due : List Process} {s s' : Sim} (hp : p ≠ .computeAdvance)
    (h : Due (p :: due) s) (hinp : s'.inp = s.inp) (hout : s'.out = s.out)
    (hadv : s'.nextOut.ctl.is_advance = s.nextOut.ctl.is_advance)
    (hrunnable : s'.runnable = s.runnable) (hnext : Unstalled s'.nextOut)
    (hstanding : Standing s'.monitor) : Due due s' where
  unstalled := by rw [hout]; exact h.unstalled
  next_unstalled := hnext
  standing := hstanding
  computed := by
    intro hd
    rw [hadv, hinp, hout]
    apply h.computed
    intro hmem
    rcases List.mem_cons.mp hmem with heq | hmem
    · exact hp heq.symm
    · exact hd hmem
  idle := hrunnable.trans h.idle

theorem evaluate_due {p : Process} {due : List Process} {s : Sim} (h : Due (p :: due) s) :
    ∃ s', evaluate s p = .ok s' ∧ Due due s' := by
  cases p with
  | driver =>
      cases hp : s.driver.pending with
      | nil =>
          refine ⟨_, by rw [evaluate, hp], ?_⟩
          exact due_of_other (by decide) h rfl rfl rfl rfl h.next_unstalled h.standing
      | cons i rest =>
          refine ⟨_, by rw [evaluate, hp], ?_⟩
          exact due_of_other (by decide) h rfl rfl rfl rfl h.next_unstalled h.standing
  | cycle =>
      rcases cycle_unstalled s.inp h.unstalled with ⟨out, hcycle, hun⟩
      refine ⟨_, by rw [evaluate, hcycle], ?_⟩
      exact due_of_other (by decide) h rfl rfl rfl rfl hun h.standing
  | computeAdvance =>
      refine ⟨_, rfl, h.unstalled, h.next_unstalled, h.standing, ?_, h.idle⟩
      intro _
      rfl
  | monitor =>
      rcases resume_standing h.standing s.seen with ⟨t, sent, hres, hst⟩
      refine ⟨_, by rw [evaluate, hres], ?_⟩
      exact due_of_other (by decide) h rfl rfl rfl rfl h.next_unstalled hst

/-- Two processes commute: each reads current signals and its own locals only,
and no two of them write the same place. -/
theorem evaluate_commute {p q : Process} {due : List Process} {s : Sim}
    (h : Due (p :: q :: due) s) :
    (evaluate s p).bind (evaluate · q) = (evaluate s q).bind (evaluate · p) := by
  obtain ⟨out, hcycle, -⟩ := cycle_unstalled s.inp h.unstalled
  obtain ⟨t, sent, hres, -⟩ := resume_standing h.standing s.seen
  rw [Sim.seen] at hres
  cases p <;> cases q <;> cases hp : s.driver.pending <;>
    simp [evaluate, Except.bind, Sim.seen, hcycle, hres, hp]

theorem due_perm {s : Sim} {due due' : List Process} (hp : due.Perm due') (h : Due due s) :
    Due due' s := by
  refine ⟨h.unstalled, h.next_unstalled, h.standing, ?_, h.idle⟩
  intro hd
  apply h.computed
  intro hmem
  exact hd (hp.mem_iff.mp hmem)

/-- The update makes `compute_advance` runnable exactly when what it last
computed may be out of date: its sensitivity list names every signal it reads. -/
theorem inv_update {s : Sim} (h : Due [] s) : Inv (update s) := by
  refine ⟨rfl, rfl, h.next_unstalled, h.standing, ?_⟩
  intro hnot
  have hquiet : senses s = false := by
    by_contra hne
    rw [Bool.not_eq_false] at hne
    exact hnot (by simp [update, hne])
  simp only [senses, Bool.or_eq_false_iff, bne_eq_false_iff_eq] at hquiet
  obtain ⟨⟨hadv, hstall⟩, hvalid⟩ := hquiet
  have hcomp := h.computed (by simp)
  simp only [update]
  rw [hcomp]
  simp only [SingleCycle.computeAdvance, hadv, hstall, hvalid]

theorem inv_posedge {s : Sim} (hidle : s.runnable = []) (h : Inv s) : Inv (posedge s) := by
  refine ⟨h.inp_current, h.out_current, h.unstalled, h.standing, fun _ => h.computed ?_⟩
  rw [hidle]
  exact List.not_mem_nil

theorem kernel_confluent : kernel.Confluent Inv Due where
  enter := by
    intro s h
    refine ⟨h.unstalled, ?_, h.standing, ?_, rfl⟩
    · show Unstalled s.nextOut
      rw [h.out_current]
      exact h.unstalled
    · intro hd
      show s.nextOut.ctl.is_advance = _
      rw [h.out_current]
      exact h.computed hd
  perm := due_perm
  evaluate := evaluate_due
  commute := evaluate_commute
  update := inv_update
  advance := inv_posedge

theorem inv_powerUp (driven : List MutInput) (signals : Transaction.SingleCycleSignals) :
    Inv (powerUp driven signals) where
  inp_current := rfl
  out_current := rfl
  unstalled := rfl
  standing := .spawned signals
  computed := fun h => absurd (by simp [powerUp]) h

/-- **Independence of process order.** After every number of steps there is one
state all schedules reach, so its signals and the transactions sent are the same;
and whenever nothing is runnable there, the advance is settled. -/
theorem order_independent (driven : List MutInput) (signals : Transaction.SingleCycleSignals)
    (n : ℕ) :
    ∃ s, (∀ sched, kernel.run sched (powerUp driven signals) n = .ok s) ∧
      (s.runnable = [] → s.out.ctl.is_advance =
        (!s.out.ctl.is_stall && (!s.out.ctl.is_valid || s.inp.ctl.is_advance))) := by
  obtain ⟨s, hinv, hrun⟩ := kernel_confluent.run (inv_powerUp driven signals) n
  refine ⟨s, hrun, fun hidle => ?_⟩
  have hcomp := hinv.computed (by rw [hidle]; exact List.not_mem_nil)
  rw [hcomp, computeAdvance]

end PipelineBench.Simulation
