import PipelineBench.Foundation.KernelLog
import PipelineBench.Uvm.Environment
import PipelineBench.Verify.Reports

/-!
# The verdict wherever the phase ends

The run phase ends when the library decides, after any step of the kernel. What
the score boards have been given by then is the monitor's log, and the log is the
beginning of the transcript of the bench, whatever the schedule.
-/

namespace PipelineBench.EveryDelta

open Run SingleCycle Monitor DeltaCycle Simulation ScoreBoard

/-! ## The monitor keeps a log -/

/-- What a turn of the monitor can do. -/
theorem resume_cases {t t' : Thread} {seen : Sample} {sent : List SingleCycleTransaction}
    (h : Standing t) (hres : resume seen wakeFuel t = .ok (t', sent)) :
    Standing t' ∧ (t.point = .loop ∧ t'.point = .startWait ∧ sent = [] ∨
      t.point = .startWait ∧ t'.point = .waitWait ∧ sent = [] ∨
      t.point = .waitWait ∧ t'.point = .waitWait ∧ sent.length = 1) := by
  cases h with
  | spawned signals =>
      have hspawn := resume_spawn 0 signals seen
      rw [Nat.zero_add, hres, Except.ok.injEq, Prod.mk.injEq] at hspawn
      obtain ⟨rfl, rfl⟩ := hspawn
      exact ⟨.start signals, Or.inl ⟨rfl, rfl, rfl⟩⟩
  | start signals =>
      obtain ⟨u, hu, harmed⟩ := resume_start 0 signals seen
      rw [Nat.zero_add, hres, Except.ok.injEq, Prod.mk.injEq] at hu
      obtain ⟨rfl, rfl⟩ := hu
      exact ⟨.armed harmed, Or.inr (Or.inl ⟨rfl, harmed.point, rfl⟩)⟩
  | armed harmed =>
      obtain ⟨u, hu, harmed'⟩ := resume_armed 0 seen harmed
      rw [Nat.zero_add, hres, Except.ok.injEq, Prod.mk.injEq] at hu
      obtain ⟨rfl, rfl⟩ := hu
      exact ⟨.armed harmed', Or.inr (Or.inr ⟨harmed.point, harmed'.point, rfl⟩)⟩

/-- An evaluation is a turn of the monitor or leaves its thread and its log alone. -/
theorem evaluate_cases {s s' : Sim} {p : Process} (heval : kernel.evaluate s p = .ok s') :
    (p = .monitor ∧ ∃ t sent, resume s.seen wakeFuel s.monitor = .ok (t, sent) ∧
        s'.monitor = t ∧ s'.transmitted = s.transmitted ++ sent) ∨
      ([p].count .monitor = 0 ∧ s'.monitor = s.monitor ∧ s'.transmitted = s.transmitted) := by
  by_cases hp : p = .monitor
  · subst hp
    cases hres : resume s.seen wakeFuel s.monitor with
    | error e => simp [kernel, evaluate, hres] at heval
    | ok r =>
        simp only [kernel, evaluate, hres, Except.ok.injEq] at heval
        subst heval
        exact Or.inl ⟨rfl, r.1, r.2, rfl, rfl, rfl⟩
  · have hown := Environment.other_ownMonitor hp heval
    rw [Environment.ownMonitor, Environment.ownMonitor, Prod.mk.injEq] at hown
    refine Or.inr ⟨List.count_eq_zero.mpr ?_, hown⟩
    rw [List.mem_singleton]
    exact Ne.symm hp

theorem monitor_evaluate {s s' : Sim} {p : Process} (hs : Standing s.monitor)
    (heval : kernel.evaluate s p = .ok s') :
    Standing s'.monitor ∧ Kernel.Appends Sim.transmitted ([p].count .monitor) s s' := by
  rcases evaluate_cases heval with ⟨rfl, t, sent, hres, ht, hsent⟩ | ⟨hcount, ht, hsent⟩
  · obtain ⟨hstanding, hturn⟩ := resume_cases hs hres
    refine ⟨ht ▸ hstanding, sent, hsent, ?_⟩
    rcases hturn with ⟨-, -, rfl⟩ | ⟨-, -, rfl⟩ | ⟨-, -, hone⟩
    · exact Nat.zero_le 1
    · exact Nat.zero_le 1
    · exact hone.le
  · exact ⟨ht ▸ hs, .of_eq hsent _⟩

/-- It is woken once at an edge, if it waits, and never by an update. -/
theorem monitor_logs :
    Kernel.Logs kernel .monitor (fun s : Sim => Standing s.monitor) Sim.transmitted where
  turns :=
    { refl := fun s => .of_eq rfl 0
      trans := Kernel.Appends.trans
      evaluate := monitor_evaluate
      enter := fun hs => ⟨hs, .of_eq rfl 0⟩
      update := fun hs => ⟨hs, .of_eq rfl 0⟩
      advance := fun hs => ⟨hs, .of_eq rfl 0⟩ }
  once_update := by
    intro s
    rw [(Environment.monitor_twin.update s).2]
    exact Nat.zero_le 1
  once_advance := by
    intro s
    rw [(Environment.monitor_twin.advance s).2]
    split
    · exact Nat.le_refl 1
    · exact Nat.zero_le 1

theorem ready_powerUp (driven : List MutInput) (signals : Transaction.SingleCycleSignals) :
    Kernel.Ready kernel .monitor (fun s : Sim => Standing s.monitor) (powerUp driven signals) :=
  ⟨.spawned signals, Nat.le_refl 1⟩

/-! ## The log is the beginning of the transcript -/

/-- After `k + 1` clocks the bench has transmitted `k` transactions. -/
theorem transmitted_bench (driven : List MutInput) (signals : Transaction.SingleCycleSignals)
    (k : ℕ) :
    ∃ es b, (Bench.start driven signals).run (k + 1) = .ok b ∧
      history edge initialised (Bench.consumed driven (k + 1)) = .ok es ∧
      b.transmitted = es.dropLast.map edgeTransaction ∧ b.transmitted.length = k := by
  obtain ⟨es, b, hrun, hinv, -, -⟩ := Bench.run_consumed driven signals (k + 1)
  have hsent := hinv.watching.transmitted
  refine ⟨es, b, hrun, hinv.history, hsent, ?_⟩
  rw [hsent, List.length_map, List.length_dropLast, history_length hinv.history, Bench.consumed,
    List.length_map, List.length_range, Nat.add_sub_cancel]

/-- After any step, under every schedule, the log is what the bench has transmitted
after some number of clocks. -/
theorem transmitted_at (driven : List MutInput) (signals : Transaction.SingleCycleSignals)
    (n : ℕ) :
    ∃ s b, (∀ sched, kernel.run sched (powerUp driven signals) n = .ok s) ∧
      s.transmitted.length ≤ n ∧
      (Bench.start driven signals).run (s.transmitted.length + 1) = .ok b ∧
      s.transmitted = b.transmitted := by
  obtain ⟨s, -, hrun⟩ := kernel_confluent.run (inv_powerUp driven signals) n
  obtain ⟨-, more, hmore, hlen⟩ :=
    monitor_logs.run (ready_powerUp driven signals) (hrun Kernel.inOrder)
  obtain ⟨es, b, hbench, -, -, hsent⟩ :=
    transmitted_bench driven signals s.transmitted.length
  obtain ⟨b', s', hbench', ⟨n', hrun'⟩, hmatch⟩ :=
    Refinement.kernel_refines_bench driven signals (s.transmitted.length + 1)
  rw [hbench, Except.ok.injEq] at hbench'
  subst hbench'
  have hlong : s'.transmitted.length = s.transmitted.length := by
    rw [hmatch.transmitted, hsent]
  have hpre := monitor_logs.prefix_of_length (ready_powerUp driven signals)
    (hrun Kernel.inOrder) (hrun' Kernel.inOrder) hlong.ge
  refine ⟨s, b, hrun, ?_, hbench, ?_⟩
  · rw [hmore]
    exact hlen
  · rw [← hmatch.transmitted]
    exact hpre.eq_of_length hlong.symm

/-! ## The verdict after any step -/

/-- What the boards make of the transactions handed over so far. -/
theorem verdict_at (driven : List MutInput) (signals : Transaction.SingleCycleSignals) (n : ℕ) :
    ∃ s b, (∀ sched, kernel.run sched (powerUp driven signals) n = .ok s) ∧
      s.transmitted.length ≤ n ∧
      (Bench.start driven signals).run (s.transmitted.length + 1) = .ok b ∧
      s.transmitted = b.transmitted ∧
      (s.transmitted.length + 1 < 2 ^ 32 →
        ∃ bench, TestBench.writes .built s.transmitted = .ok bench ∧ Reports.Quiet bench ∧
          (bench.isPass = true ↔ Program.Covers driven (s.transmitted.length + 1))) := by
  obtain ⟨s, b, hrun, hlen, hbench, hsent⟩ := transmitted_at driven signals n
  refine ⟨s, b, hrun, hlen, hbench, hsent, ?_⟩
  intro hsmall
  obtain ⟨es, b', hbench', hhist, hsent', -⟩ :=
    transmitted_bench driven signals s.transmitted.length
  rw [hbench, Except.ok.injEq] at hbench'
  subst hbench'
  obtain ⟨bench, hwrites, hquiet, hpass⟩ := Reports.quiet_of_history hhist (by
    rw [Bench.consumed, List.length_map, List.length_range]
    exact hsmall)
  refine ⟨bench, ?_, hquiet, hpass.trans Program.covers_iff⟩
  rw [hsent, hsent']
  exact hwrites

/-- What the program returns when the boards have this verdict. -/
theorem reportPhase_code (bench : TestBench) :
    (UvmTest.mk false bench).extractPhase.reportPhase.2.return_code =
      some (if bench.isPass then UvmReturnCode.success else UvmReturnCode.testFail).toInt :=
  rfl

/-- **The verdict after any step.** Wherever the phase ends, and whatever the
order in which the kernel has evaluated the processes, the monitor has handed over
what the bench transmits up to some clock. Given that, the score boards have
counted no failure and printed nothing, and the program returns success exactly
when every ordered pair of control combinations was driven on consecutive clocks
among those transmitted, and test failure otherwise. -/
theorem verdict_every_delta (driven : List MutInput) (signals : Transaction.SingleCycleSignals)
    (n : ℕ) (hn : n + 1 < 2 ^ 32) :
    ∃ s b bench, (∀ sched, kernel.run sched (powerUp driven signals) n = .ok s) ∧
      (Bench.start driven signals).run (s.transmitted.length + 1) = .ok b ∧
      s.transmitted = b.transmitted ∧
      TestBench.writes .built s.transmitted = .ok bench ∧ Reports.Quiet bench ∧
      ((UvmTest.mk false bench).extractPhase.reportPhase.2.return_code =
          some UvmReturnCode.success.toInt ↔
        Program.Covers driven (s.transmitted.length + 1)) ∧
      ((UvmTest.mk false bench).extractPhase.reportPhase.2.return_code =
          some UvmReturnCode.testFail.toInt ↔
        ¬ Program.Covers driven (s.transmitted.length + 1)) := by
  obtain ⟨s, b, hrun, hlen, hbench, hsent, hverdict⟩ := verdict_at driven signals n
  obtain ⟨bench, hwrites, hquiet, hpass⟩ :=
    hverdict ((Nat.succ_le_succ hlen).trans_lt hn)
  refine ⟨s, b, bench, hrun, hbench, hsent, hwrites, hquiet, ?_⟩
  rw [reportPhase_code, ← hpass]
  exact AnyModule.code_iff bench.isPass

theorem verdict_every_delta_seven :
    ∃ s b bench, (∀ sched, kernel.run sched
        (powerUp (UvmTest.drivenInputs 1 [.reset, .error]) .ugly) 7 = .ok s) ∧
      (Bench.start (UvmTest.drivenInputs 1 [.reset, .error]) .ugly).run
        (s.transmitted.length + 1) = .ok b ∧
      s.transmitted = b.transmitted ∧
      TestBench.writes .built s.transmitted = .ok bench ∧ Reports.Quiet bench ∧
      ((UvmTest.mk false bench).extractPhase.reportPhase.2.return_code =
          some UvmReturnCode.success.toInt ↔
        Program.Covers (UvmTest.drivenInputs 1 [.reset, .error]) (s.transmitted.length + 1)) ∧
      ((UvmTest.mk false bench).extractPhase.reportPhase.2.return_code =
          some UvmReturnCode.testFail.toInt ↔
        ¬ Program.Covers (UvmTest.drivenInputs 1 [.reset, .error]) (s.transmitted.length + 1)) :=
  verdict_every_delta (UvmTest.drivenInputs 1 [.reset, .error]) .ugly 7 (by decide)

end PipelineBench.EveryDelta
