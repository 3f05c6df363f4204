import PipelineBench.Uvm.Bench

/-!
# The kernel implements the bench

Between two rising edges the kernel runs a few delta cycles; the bench takes one
step. Whatever the schedule, the kernel reaches the signals and the transmitted
transactions the bench computes.
-/

namespace PipelineBench.Refinement

open SingleCycle Monitor DeltaCycle Simulation

/-- A kernel with nothing runnable, in the state of the bench. -/
structure Matches (s : Sim) (b : Bench) : Prop where
  inp : s.inp = b.inp
  out : s.out = b.out
  pending : s.driver.pending = b.pending
  driving : s.driver.waiting = false → b.pending = []
  monitor : s.monitor = b.monitor
  listening : b.monitor.point = .startWait ∨ b.monitor.point = .waitWait
  transmitted : s.transmitted = b.transmitted
  idle : s.runnable = []

theorem settle_of_computed {s : Sim}
    (h : s.out.ctl.is_advance = SingleCycle.computeAdvance s.inp s.out) :
    settle s.inp s.out = s.out := by
  rw [settle, ← h]

/-- The one process left after an update settles the advance, and nothing is
sensitive to that. -/
theorem step_settle {s : Sim} (h : Inv s) (hr : s.runnable = [.computeAdvance]) :
    kernel.step id s = .ok { s with
      out := settle s.inp s.out, nextOut := settle s.inp s.out, runnable := [] } := by
  have hinp := h.inp_current
  have hout := h.out_current
  rcases s with ⟨inp, out, nextInp, nextOut, driver, monitor, transmitted, runnable⟩
  simp only at hinp hout hr
  subst hinp hout hr
  simp [Kernel.step, kernel, evaluate, update, senses, settle, bind, Except.bind, pure, Except.pure,
    Except.map]

theorem leads_settle {s : Sim} (h : Inv s)
    (hr : s.runnable = [] ∨ s.runnable = [.computeAdvance]) :
    Kernel.Leads kernel s { s with
        out := settle s.inp s.out, nextOut := settle s.inp s.out, runnable := [] } ∧
      Inv { s with
        out := settle s.inp s.out, nextOut := settle s.inp s.out, runnable := [] } := by
  rcases hr with hr | hr
  · have hnot : Process.computeAdvance ∉ s.runnable := by
      rw [hr]
      exact List.not_mem_nil
    have hsame : { s with
        out := settle s.inp s.out, nextOut := settle s.inp s.out, runnable := [] } = s := by
      rw [settle_of_computed (h.computed hnot), ← hr]
      rcases s with ⟨inp, out, nextInp, nextOut, driver, monitor, transmitted, runnable⟩
      have hout : nextOut = out := h.out_current
      rw [hout]
    rw [hsame]
    exact ⟨Kernel.Leads.refl s, h⟩
  · exact kernel_confluent.leads h (step_settle h hr)

theorem runnable_update (s : Sim) :
    (update s).runnable = [] ∨ (update s).runnable = [.computeAdvance] := by
  cases hs : senses s with
  | false => exact Or.inl (by simp [update, hs])
  | true => exact Or.inr (by simp [update, hs])

/-- `cycle` leaves the advance to `compute_advance`. -/
theorem is_advance_of_cycle {inp : MutInput} {out out' : MutOutput}
    (h : SingleCycle.cycle inp out = .ok out') : out'.ctl.is_advance = out.ctl.is_advance := by
  rw [SingleCycle.cycle] at h
  cases hnext : nextState (readInput inp) (readState out) with
  | error e =>
      rw [hnext] at h
      exact absurd h (by simp)
  | ok state =>
      rw [hnext] at h
      have heq := Except.ok.inj h
      rw [← heq]
      rfl

/-- The driver thread after its turn at a rising edge. -/
def driven (s : Sim) : DriverThread :=
  ⟨(Bench.drive s.inp s.driver.pending).2, !s.driver.pending.isEmpty⟩

/-- All the processes of a rising edge, in one order. -/
theorem step_posedge {s : Sim} {out' : MutOutput} {t : Thread}
    {sent : List SingleCycleTransaction} (h : Inv s)
    (hdriving : s.driver.waiting = false → s.driver.pending = [])
    (hlisten : s.monitor.point = .startWait ∨ s.monitor.point = .waitWait)
    (hcycle : SingleCycle.cycle s.inp s.out = .ok out')
    (hres : resume s.seen wakeFuel s.monitor = .ok (t, sent)) :
    kernel.step id (posedge s) = .ok (update { s with
      nextInp := (Bench.drive s.inp s.driver.pending).1
      nextOut := out'
      driver := driven s
      monitor := t
      transmitted := s.transmitted ++ sent
      runnable := [] }) := by
  have hinp := h.inp_current
  have hout := h.out_current
  have hadv := is_advance_of_cycle hcycle
  rcases s with ⟨inp, out, nextInp, nextOut, ⟨pending, waiting⟩, monitor, transmitted, runnable⟩
  simp only [Sim.seen] at hinp hout hdriving hlisten hcycle hres hadv
  subst hinp hout
  have hwrite : ({ out' with ctl := { out'.ctl with is_advance := nextOut.ctl.is_advance } } :
      MutOutput) = out' := by
    rw [← hadv]
  cases waiting with
  | false =>
      have hnil := hdriving rfl
      subst hnil
      simp [Kernel.step, kernel, posedge, evaluate, Sim.seen, hlisten, hcycle, hres, hwrite, driven,
        Bench.drive, bind, Except.bind, pure, Except.pure, Except.map]
  | true =>
      cases pending <;>
        simp [Kernel.step, kernel, posedge, evaluate, Sim.seen, hlisten, hcycle, hres, hwrite,
          driven, Bench.drive, bind, Except.bind, pure, Except.pure, Except.map]

/-- Once an update is settled, what remains to compare with the bench. -/
theorem matches_of_update {s : Sim} {b : Bench} (h : Inv (update s))
    (hinp : s.nextInp = b.inp) (hout : settle s.nextInp s.nextOut = b.out)
    (hpending : s.driver.pending = b.pending)
    (hdriving : s.driver.waiting = false → b.pending = [])
    (hmonitor : s.monitor = b.monitor)
    (hlisten : b.monitor.point = .startWait ∨ b.monitor.point = .waitWait)
    (hsent : s.transmitted = b.transmitted) :
    ∃ s', Kernel.Leads kernel (update s) s' ∧ Inv s' ∧ Matches s' b := by
  rcases leads_settle h (runnable_update s) with ⟨hleads, hinv⟩
  refine ⟨_, hleads, hinv, ?_⟩
  constructor
  · exact hinp
  · exact hout
  · exact hpending
  · exact hdriving
  · exact hmonitor
  · exact hlisten
  · exact hsent
  · rfl

/-- One clock of the bench is a rising edge of the kernel and what follows it up
to the next one. -/
theorem kernel_clock {s : Sim} {b b' : Bench} (hm : Matches s b) (h : Inv s)
    (hclock : b.clock = .ok b')
    (hlisten : b'.monitor.point = .startWait ∨ b'.monitor.point = .waitWait) :
    ∃ s', Kernel.Leads kernel s s' ∧ Inv s' ∧ Matches s' b' := by
  have hposedge : kernel.step id s = .ok (posedge s) := by
    have hidle : kernel.runnable s = [] := hm.idle
    rw [Kernel.step, hidle]
    rfl
  rcases kernel_confluent.leads h hposedge with ⟨hleads, hinv⟩
  rw [Bench.clock] at hclock
  cases hcycle : SingleCycle.cycle b.inp b.out with
  | error e => simp [hcycle] at hclock
  | ok out' =>
      cases hres : resume ⟨sampleState b.out, sampleStimuli b.inp⟩ wakeFuel b.monitor with
      | error e => simp [hcycle, hres] at hclock
      | ok r =>
          simp only [hcycle, hres, Except.ok.injEq] at hclock
          subst hclock
          rw [← hm.inp, ← hm.out] at hcycle hres
          rw [← hm.monitor] at hres
          have hdriving : s.driver.waiting = false → s.driver.pending = [] := by
            intro hwait
            rw [hm.pending]
            exact hm.driving hwait
          have hpoint : s.monitor.point = .startWait ∨ s.monitor.point = .waitWait := by
            rw [hm.monitor]
            exact hm.listening
          have hstep := step_posedge h hdriving hpoint hcycle hres
          rcases kernel_confluent.leads hinv hstep with ⟨hleads', hinv'⟩
          have hdrive : Bench.drive s.inp s.driver.pending = Bench.drive b.inp b.pending := by
            rw [hm.inp, hm.pending]
          have hmatch := matches_of_update hinv'
            (b := ⟨(Bench.drive b.inp b.pending).1, settle (Bench.drive b.inp b.pending).1 out',
              (Bench.drive b.inp b.pending).2, r.1, b.transmitted ++ r.2⟩)
            (congrArg Prod.fst hdrive) (by rw [hdrive]) (congrArg Prod.snd hdrive) ?_ rfl hlisten
            (by rw [hm.transmitted])
          · rcases hmatch with ⟨s', hleads'', hinv'', hmatch⟩
            exact ⟨s', (hleads.trans hleads').trans hleads'', hinv'', hmatch⟩
          · intro hwait
            have hempty : b.pending = [] := by
              rw [← hm.pending]
              simpa [driven] using hwait
            rw [hempty]
            rfl

/-- Initialisation, in one order. -/
theorem step_powerUp (inputs : List MutInput) (signals : Transaction.SingleCycleSignals) :
    kernel.step id (powerUp inputs signals) = .ok (update { powerUp inputs signals with
      nextInp := (Bench.drive .powerUp inputs).1
      nextOut := initialised
      driver := ⟨(Bench.drive .powerUp inputs).2, !inputs.isEmpty⟩
      monitor := { spawn signals with point := .startWait }
      runnable := [] }) := by
  have hspawn : ∀ seen, resume seen wakeFuel (spawn signals) =
      .ok ({ spawn signals with point := .startWait }, []) := by
    intro seen
    exact resume_spawn 0 signals seen
  cases inputs <;>
    simp [Kernel.step, kernel, powerUp, evaluate, Sim.seen, hspawn, SingleCycle.cycle, nextState,
      readInput, writeOutputs, readState, SingleCycle.computeAdvance, initialised,
      MutInput.powerUp, MutOutput.powerUp, Bench.drive, bind, Except.bind, pure, Except.pure,
      Except.map]

/-- **The kernel implements the bench.** After any number of clocks the bench is
in the state every schedule of the kernel reaches, after some step that leaves
nothing runnable. -/
theorem kernel_refines_bench (inputs : List MutInput) (signals : Transaction.SingleCycleSignals)
    (n : ℕ) :
    ∃ b s, (Bench.start inputs signals).run n = .ok b ∧
      Kernel.Leads kernel (powerUp inputs signals) s ∧ Matches s b := by
  have hrun : ∃ b s, (Bench.start inputs signals).run n = .ok b ∧
      Kernel.Leads kernel (powerUp inputs signals) s ∧ Inv s ∧ Matches s b := by
    induction n with
    | zero =>
        rcases kernel_confluent.leads (inv_powerUp inputs signals) (step_powerUp inputs signals)
          with ⟨hleads, hinv⟩
        rcases matches_of_update hinv (b := Bench.start inputs signals) rfl rfl rfl
          (by cases inputs <;> simp [Bench.start, Bench.drive]) rfl (Or.inl rfl) rfl
          with ⟨s, hleads', hinv', hmatch⟩
        exact ⟨_, s, rfl, hleads.trans hleads', hinv', hmatch⟩
    | succ n ih =>
        rcases ih with ⟨b, s, hb, hleads, hinv, hmatch⟩
        rcases Bench.run_inv inputs signals (n + 1) with ⟨is, es, b', hb', -, hbinv⟩
        have hclock : b.clock = .ok b' := by
          rw [Bench.run, hb] at hb'
          exact hb'
        rcases kernel_clock hmatch hinv hclock hbinv.watching.listening
          with ⟨s', hleads', hinv', hmatch'⟩
        exact ⟨b', s', hb', hleads.trans hleads', hinv', hmatch'⟩
  rcases hrun with ⟨b, s, hb, hleads, -, hmatch⟩
  exact ⟨b, s, hb, hleads, hmatch⟩

end PipelineBench.Refinement
