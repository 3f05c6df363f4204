import PipelineBench.Foundation.Observer
import PipelineBench.Uvm.Simulation

/-!
# The environment and its agent

`environment.h` and `agent.h`: the environment builds a monitor and an agent, and
the agent builds a monitor of its own beside the sequencer and the driver. The
test bench connects its score boards to the first monitor; nothing listens to the
second.
-/

namespace PipelineBench.Environment

open Monitor DeltaCycle Simulation

/-- A monitor with the transactions it has written to its output port. -/
abbrev Output := Thread × List SingleCycleTransaction

/-- The thread of the monitor that the agent builds. -/
def agentMonitor : Observer Abort Sample Output where
  observe seen m := (resume seen wakeFuel m.1).map fun r => (r.1, m.2 ++ r.2)
  listens m := decide (m.1.point = .startWait ∨ m.1.point = .waitWait)

/-- The processes of the environment: those of the bench and the thread of the
agent's monitor. -/
def kernel : Kernel Abort (Observed Sim Output) (Option Process) :=
  Simulation.kernel.observed Sim.seen agentMonitor

/-- Before the first delta cycle. Neither monitor initialises its local. -/
def powerUp (driven : List MutInput) (signals agentSignals : Transaction.SingleCycleSignals) :
    Observed Sim Output where
  system := Simulation.powerUp driven signals
  observer := (spawn agentSignals, [])
  due := true

/-- The monitor of the environment, as the agent's would be. -/
def ownMonitor (s : Sim) : Output := (s.monitor, s.transmitted)

/-! ## The two monitors -/

/-- Two threads at the same point, the locals the same once they have been
written. -/
inductive SameThread : Thread → Thread → Prop
  | spawned (a b) : SameThread (spawn a) (spawn b)
  | waiting (a b) :
      SameThread { spawn a with point := .startWait } { spawn b with point := .startWait }
  | same (t) : SameThread t t

theorem SameThread.point {t u : Thread} (h : SameThread t u) : t.point = u.point := by
  cases h <;> rfl

/-- Whatever was in the local, the first edge overwrites it. -/
theorem resume_waiting (seen : Sample) (a b : Transaction.SingleCycleSignals) :
    resume seen wakeFuel { spawn a with point := .startWait } =
      resume seen wakeFuel { spawn b with point := .startWait } := by
  simp [wakeFuel, resume, advance, spawn, Point.suspended, Except.map]

theorem SameThread.resume {t u t' : Thread} {sent : List SingleCycleTransaction} {seen : Sample}
    (h : SameThread t u) (ht : resume seen wakeFuel t = .ok (t', sent)) :
    ∃ u', Monitor.resume seen wakeFuel u = .ok (u', sent) ∧ SameThread t' u' := by
  cases h with
  | spawned a b =>
      have ha := resume_spawn 0 a seen
      rw [Nat.zero_add, ht, Except.ok.injEq, Prod.mk.injEq] at ha
      obtain ⟨rfl, rfl⟩ := ha
      exact ⟨_, resume_spawn 0 b seen, .waiting a b⟩
  | waiting a b =>
      rw [resume_waiting seen a b] at ht
      exact ⟨t', ht, .same t'⟩
  | same t => exact ⟨t', ht, .same t'⟩

def SameOutput (m n : Output) : Prop := SameThread m.1 n.1 ∧ m.2 = n.2

/-- No process writes a signal before the update. -/
theorem seen_of_evaluate {s s' : Sim} {p : Process}
    (h : Simulation.kernel.evaluate s p = .ok s') : s'.seen = s.seen := by
  cases p with
  | driver =>
      cases hp : s.driver.pending <;>
        simp only [Simulation.kernel, evaluate, hp, Except.ok.injEq] at h <;>
        exact h ▸ rfl
  | cycle =>
      cases hc : SingleCycle.cycle s.inp s.out <;>
        simp only [Simulation.kernel, evaluate, hc, Except.ok.injEq, reduceCtorEq] at h
      exact h ▸ rfl
  | computeAdvance =>
      simp only [Simulation.kernel, evaluate, Except.ok.injEq] at h
      exact h ▸ rfl
  | monitor =>
      cases hm : resume s.seen wakeFuel s.monitor <;>
        simp only [Simulation.kernel, evaluate, hm, Except.ok.injEq, reduceCtorEq] at h
      exact h ▸ rfl

theorem monitor_observe {s s' : Sim} (h : Simulation.kernel.evaluate s .monitor = .ok s') :
    agentMonitor.observe s.seen (ownMonitor s) = .ok (ownMonitor s') := by
  cases hm : resume s.seen wakeFuel s.monitor with
  | error e => simp [Simulation.kernel, evaluate, hm] at h
  | ok r =>
      simp only [Simulation.kernel, evaluate, hm, Except.ok.injEq] at h
      simp only [agentMonitor, ownMonitor, hm, Except.map, ← h]

theorem other_ownMonitor {s s' : Sim} {p : Process} (hp : p ≠ .monitor)
    (h : Simulation.kernel.evaluate s p = .ok s') : ownMonitor s' = ownMonitor s := by
  cases p with
  | driver =>
      cases hd : s.driver.pending <;>
        simp only [Simulation.kernel, evaluate, hd, Except.ok.injEq] at h <;>
        exact h ▸ rfl
  | cycle =>
      cases hc : SingleCycle.cycle s.inp s.out <;>
        simp only [Simulation.kernel, evaluate, hc, Except.ok.injEq, reduceCtorEq] at h
      exact h ▸ rfl
  | computeAdvance =>
      simp only [Simulation.kernel, evaluate, Except.ok.injEq] at h
      exact h ▸ rfl
  | monitor => exact absurd rfl hp

/-- At an update nobody waits for the clock any more; at a rising edge a monitor
is woken if it waits for one. -/
theorem monitor_twin :
    Kernel.Twin Simulation.kernel Sim.seen agentMonitor .monitor ownMonitor SameOutput where
  observe := monitor_observe
  other := other_ownMonitor
  enter := fun _ => ⟨rfl, rfl⟩
  update := by
    intro s
    refine ⟨rfl, ?_⟩
    show (update s).runnable.count .monitor = 0
    cases hs : senses s <;> simp [update, hs]
  advance := by
    intro s
    refine ⟨rfl, ?_⟩
    show (posedge s).runnable.count .monitor = if agentMonitor.listens (ownMonitor s) then 1 else 0
    by_cases hw : s.driver.waiting = true <;>
      by_cases hm : s.monitor.point = .startWait ∨ s.monitor.point = .waitWait <;>
      simp [posedge, agentMonitor, ownMonitor, hw, hm]
  alike := by
    rintro v ⟨t, sent⟩ ⟨u, sent'⟩ ⟨t', sent''⟩ ⟨hthread, hsent⟩ hobs
    simp only at hthread hsent
    subst hsent
    cases hres : resume v wakeFuel t with
    | error e => simp [agentMonitor, hres, Except.map] at hobs
    | ok r =>
        obtain ⟨t₁, more⟩ := r
        simp only [agentMonitor, hres, Except.map, Except.ok.injEq, Prod.mk.injEq] at hobs
        obtain ⟨rfl, rfl⟩ := hobs
        obtain ⟨u₁, hu, hthread'⟩ := hthread.resume hres
        exact ⟨(u₁, sent ++ more), by simp only [agentMonitor, hu, Except.map], hthread', rfl⟩
  listens := by
    rintro ⟨t, sent⟩ ⟨u, sent'⟩ ⟨hthread, -⟩
    have hpoint : t.point = u.point := hthread.point
    simp only [agentMonitor, hpoint]

theorem agentMonitor_tireless : Kernel.Tireless agentMonitor fun m => Standing m.1 := by
  rintro v ⟨t, sent⟩ ht
  rcases resume_standing ht v with ⟨t', more, hres, ht'⟩
  exact ⟨(t', sent ++ more), by simp only [agentMonitor, hres, Except.map], ht'⟩

/-- **The agent's monitor changes nothing and tells the same.** Whatever the
schedule of the five processes, driver, module and first monitor run as they do
without it; and after every step both monitors have transmitted the same
transactions and stand at the same point. -/
theorem monitors_agree (driven : List MutInput)
    (signals agentSignals : Transaction.SingleCycleSignals) (n : ℕ) :
    ∃ s, (∀ sched, kernel.run sched (powerUp driven signals agentSignals) n = .ok s) ∧
      (∀ sched, Simulation.kernel.run sched (Simulation.powerUp driven signals) n =
        .ok s.system) ∧
      s.observer.2 = s.system.transmitted ∧ s.observer.1.point = s.system.monitor.point := by
  have hstart : Kernel.Alike Simulation.kernel .monitor ownMonitor SameOutput
      (powerUp driven signals agentSignals) := by
    refine ⟨⟨.spawned signals agentSignals, rfl⟩, ?_⟩
    show (Simulation.powerUp driven signals).runnable.count .monitor = 1
    rfl
  obtain ⟨s, hrun, halone, ⟨hthread, hsent⟩, -⟩ :=
    monitor_twin.run seen_of_evaluate agentMonitor_tireless kernel_confluent
      (inv_powerUp driven signals) (.spawned agentSignals) hstart n
  exact ⟨s, hrun, halone, hsent.symm, hthread.point.symm⟩

end PipelineBench.Environment
