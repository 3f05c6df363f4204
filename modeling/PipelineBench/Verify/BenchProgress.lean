import PipelineBench.Verify.EveryDelta

/-!
# The bench makes progress

Time moves on past every rising edge, and the monitor has one turn at each,
whatever the schedule. So a test that covers the pairs has its verdict once there
have been as many edges as the sequences send items.
-/

namespace PipelineBench.BenchProgress

open Monitor DeltaCycle Simulation Sequence

/-! ## The turns of the monitor -/

/-- How often a thread that has sent `n` transactions has been resumed. -/
def turnsOf (t : Thread) (n : ℕ) : ℕ :=
  match t.point with
  | .startWait => 1
  | .waitWait => n + 2
  | _ => 0

def turns (s : Sim) : ℕ := turnsOf s.monitor s.transmitted.length

/-- It has transmitted nothing before it waits for a second edge. -/
def Fit (s : Sim) : Prop :=
  Standing s.monitor ∧ (s.monitor.point ≠ .waitWait → s.transmitted = [])

/-- Every turn of the monitor counts, and nothing else does. -/
theorem monitor_turns : Kernel.Turns kernel .monitor Fit (Kernel.Raises turns) where
  refl s := rfl
  trans := Kernel.Raises.trans
  evaluate := by
    intro s s' p hs heval
    obtain ⟨hstanding, hempty⟩ := hs
    rcases EveryDelta.evaluate_cases heval with
      ⟨rfl, t, sent, hres, ht, hsent⟩ | ⟨hcount, ht, hsent⟩
    · obtain ⟨hstanding', hturn⟩ := EveryDelta.resume_cases hstanding hres
      rw [Fit, Kernel.Raises, turns, turns, ht, hsent]
      rcases hturn with ⟨hp, hp', rfl⟩ | ⟨hp, hp', rfl⟩ | ⟨hp, hp', hone⟩
      · have hnil := hempty (by rw [hp]; decide)
        rw [hnil, turnsOf, turnsOf, hp, hp']
        exact ⟨⟨hstanding', fun _ => rfl⟩, rfl⟩
      · have hnil := hempty (by rw [hp]; decide)
        refine ⟨⟨hstanding', fun hne => absurd hp' hne⟩, ?_⟩
        rw [turnsOf, turnsOf, hp, hp', hnil]
        rfl
      · refine ⟨⟨hstanding', fun hne => absurd hp' hne⟩, ?_⟩
        rw [turnsOf, turnsOf, hp, hp', List.length_append, hone]
        rfl
    · rw [Fit, Kernel.Raises, turns, turns, ht, hsent, hcount]
      exact ⟨⟨hstanding, hempty⟩, rfl⟩
  enter := fun hs => ⟨hs, rfl⟩
  update := fun hs => ⟨hs, rfl⟩
  advance := fun hs => ⟨hs, rfl⟩

/-! ## One turn an edge -/

/-- A thread that has been resumed waits for an edge. -/
theorem waits_of_turns {s : Sim} (h : 1 ≤ turns s) :
    s.monitor.point = .startWait ∨ s.monitor.point = .waitWait := by
  rw [turns, turnsOf] at h
  split at h
  next hpoint => exact Or.inl hpoint
  next hpoint => exact Or.inr hpoint
  next => omega

/-- The rising edge alone wakes the monitor. -/
theorem monitor_woken : Kernel.Woken kernel .monitor Fit turns where
  counted := monitor_turns
  update := fun s => (Environment.monitor_twin.update s).2
  advance := by
    intro s _ hturned
    rw [(Environment.monitor_twin.advance s).2]
    exact if_pos (decide_eq_true (waits_of_turns hturned))

/-- One transaction for every edge but the first, of which the last may still be
due. -/
theorem transmitted_of_edges {driven : List MutInput}
    {signals : Transaction.SingleCycleSignals} {n : ℕ} {sched : Schedule Process} {s : Sim}
    (hrun : kernel.run sched (powerUp driven signals) n = .ok s) :
    kernel.edges sched (powerUp driven signals) n ≤ s.transmitted.length + 2 ∧
      s.transmitted.length ≤ kernel.edges sched (powerUp driven signals) n := by
  obtain ⟨⟨-, hempty⟩, hturns⟩ :=
    monitor_woken.run ⟨.spawned signals, fun _ => rfl⟩ rfl hrun
  have honce := (EveryDelta.monitor_logs.run (EveryDelta.ready_powerUp driven signals) hrun).1.2
  rw [turns, turnsOf] at hturns
  split at hturns
  next hpoint =>
    rw [hempty (by rw [hpoint]; decide)]
    exact ⟨by omega, Nat.zero_le _⟩
  next => omega
  next hpoint =>
    rw [hempty hpoint]
    exact ⟨by omega, Nat.zero_le _⟩

/-! ## Time moves on -/

/-- Whatever has been evaluated, at most the advance is left to settle. -/
theorem rest {s : Sim} (h : Inv s) :
    ∃ s', Kernel.Leads kernel s s' ∧ Inv s' ∧ kernel.runnable s' = [] := by
  by_cases hidle : kernel.runnable s = []
  · exact ⟨s, .refl s, h, hidle⟩
  · obtain ⟨t, -, hstep⟩ := kernel_confluent.step h
    have hone := hstep id fun l => List.Perm.refl l
    obtain ⟨hleads, ht⟩ := kernel_confluent.leads h hone
    have hleft : t.runnable = [] ∨ t.runnable = [.computeAdvance] := by
      rcases Kernel.step_cases hone with ⟨hnone, -⟩ | ⟨-, u, -, rfl⟩
      · exact absurd hnone hidle
      · exact Refinement.runnable_update u
    obtain ⟨hsettled, hinv⟩ := Refinement.leads_settle ht hleft
    exact ⟨_, hleads.trans hsettled, hinv, rfl⟩

/-! ## The verdict is reached in time -/

/-- **Success in time.** Whatever the other sequences, the random numbers and the
schedule, time moves on past every rising edge, and once there has been one for
each item and each idle clock, and one more, a test with the pair sequence returns
success, wherever the phase then ends. -/
theorem success_in_time (beyond : ℕ → Char) (g : Request.Generator)
    (signals : Transaction.SingleCycleSignals) (sequences : List TestSequence)
    (hidle : ∀ s ∈ sequences, s.m_spinning = false) (pairs : TestSequence)
    (hpairs : pairs ∈ sequences) (hkind : pairs.kind = .allControlPairs)
    (hcount : 1 ≤ pairs.m_count.toNat) :
    ∃ items, startAll beyond g sequences = .ok items ∧ ∀ idle,
      (∀ k, ∃ n, ∀ sched,
        k ≤ kernel.edges sched (powerUp (UvmTest.drivenInputs idle items) signals) n) ∧
      ∀ n sched,
        idle + items.length + 1 ≤
          kernel.edges sched (powerUp (UvmTest.drivenInputs idle items) signals) n →
        kernel.edges sched (powerUp (UvmTest.drivenInputs idle items) signals) n + 1 < 2 ^ 32 →
        ∃ s bench,
          kernel.run sched (powerUp (UvmTest.drivenInputs idle items) signals) n = .ok s ∧
          TestBench.writes .built s.transmitted = .ok bench ∧ Reports.Quiet bench ∧
          (UvmTest.mk false bench).extractPhase.reportPhase.2.return_code =
            some UvmReturnCode.success.toInt := by
  obtain ⟨items, hitems⟩ := startAll_ok beyond g hidle
  refine ⟨items, hitems, fun idle => ⟨?_, ?_⟩⟩
  · exact kernel_confluent.time_moves rest (inv_powerUp _ signals)
  · intro n sched hlong hsmall
    obtain ⟨s, b, hrun, -, -, -, hverdict⟩ :=
      EveryDelta.verdict_at (UvmTest.drivenInputs idle items) signals n
    obtain ⟨hsent, hbound⟩ := transmitted_of_edges (hrun sched)
    obtain ⟨bench, hwrites, hquiet, hpass⟩ :=
      hverdict (lt_of_le_of_lt (Nat.succ_le_succ hbound) hsmall)
    have hcover :
        Program.Covers (UvmTest.drivenInputs idle items) (s.transmitted.length + 1) := by
      apply Program.covers_of_pairs beyond g hpairs hkind hcount hidle hitems
      omega
    refine ⟨s, bench, hrun sched, hwrites, hquiet, ?_⟩
    rw [EveryDelta.reportPhase_code, hpass.mpr hcover]
    rfl

/-- The shipped test. -/
theorem success_in_time_shipped :
    ∃ items, startAll (fun _ => '?') ⟨fun _ => 0, 0⟩ UvmTest.sequences = .ok items ∧ ∀ idle,
      (∀ k, ∃ n, ∀ sched,
        k ≤ kernel.edges sched (powerUp (UvmTest.drivenInputs idle items) .ugly) n) ∧
      ∀ n sched,
        idle + items.length + 1 ≤
          kernel.edges sched (powerUp (UvmTest.drivenInputs idle items) .ugly) n →
        kernel.edges sched (powerUp (UvmTest.drivenInputs idle items) .ugly) n + 1 < 2 ^ 32 →
        ∃ s bench,
          kernel.run sched (powerUp (UvmTest.drivenInputs idle items) .ugly) n = .ok s ∧
          TestBench.writes .built s.transmitted = .ok bench ∧ Reports.Quiet bench ∧
          (UvmTest.mk false bench).extractPhase.reportPhase.2.return_code =
            some UvmReturnCode.success.toInt :=
  success_in_time _ _ .ugly UvmTest.sequences Program.sequences_idle
    (.make .allControlPairs (TestSequence.countDefault .allControlPairs))
    (by simp [UvmTest.sequences]) rfl (by decide)

end PipelineBench.BenchProgress
