import PipelineBench.Uvm.AnyModule
import PipelineBench.Verify.Program

/-!
# What the UVM bench detects

The driver does not look at the module, so beside any module the inputs of a run
are known in advance and the module is driven open loop. The monitor and the
score boards then decide which of its transitions count.
-/

namespace PipelineBench.AnyModule

open SelfCheck Monitor Transaction Predictor ScoreBoard UvmTest Sequence Program

variable {σ : Type} (m : ModuleUnderTest σ)

/-! ## The module driven open loop -/

/-- The state of the module at clock `k`, if it has taken every input before. -/
def stateAt (input : ℕ → MutInput) (s : σ) (k : ℕ) : σ :=
  match drive m.edge input s k with
  | .error _ => s
  | .ok sk => sk

/-- What the monitor samples at clock `k`. -/
def observed (driven : List MutInput) (s : σ) (k : ℕ) : Sample :=
  sample m (stateAt m (Bench.inputAt driven) s k) (Bench.inputAt driven k)

/-- The signals of the transaction that begins at clock `k`. -/
def signalsAt (driven : List MutInput) (s : σ) (k : ℕ) : SingleCycleSignals where
  state_0 := (observed m driven s k).state
  stimuli := (observed m driven s k).stimuli
  state_1 := (observed m driven s (k + 1)).state

/-- What the score boards ask of one transaction. -/
def AsPredicted (x : SingleCycleSignals) : Prop :=
  ControlsAgree x ∧ (x.state_1.ctl.is_valid = true → ValueAgrees x)

variable {m}

theorem stateAt_of_drive {input : ℕ → MutInput} {s sn : σ} {n : ℕ}
    (h : drive m.edge input s n = .ok sn) : stateAt m input s n = sn := by
  rw [stateAt, h]

/-- A transaction depends on no input after those it reports. -/
theorem signalsAt_congr {driven driven' : List MutInput} {s : σ} {n k : ℕ}
    (h : ∀ j < n, Bench.inputAt driven j = Bench.inputAt driven' j) (hk : k + 1 < n) :
    signalsAt m driven s k = signalsAt m driven' s k := by
  have hobserved : ∀ j < n, observed m driven s j = observed m driven' s j := by
    intro j hj
    rw [observed, observed, stateAt, stateAt, drive_congr fun i hi => h i (by omega), h j hj]
  rw [signalsAt, signalsAt, hobserved k (by omega), hobserved (k + 1) hk]

/-! ## The bench is the module and the thread, side by side -/

/-- The thread beside any sequence of samples, one transaction behind. -/
theorem thread_ok (signals : SingleCycleSignals) (before : Sample) (samples : ℕ → Sample) (n : ℕ) :
    ∃ t, collectTransactions wakeFuel signals before samples n =
      .ok (t, (List.range (n - 1)).map fun k => transactionOf (samples k) (samples (k + 1))) := by
  cases n with
  | zero =>
      have hspawn := resume_spawn 0 signals before
      rw [Nat.zero_add] at hspawn
      exact ⟨_, hspawn⟩
  | succ n =>
      obtain ⟨t, ht, -⟩ := collectTransactions_armed 0 signals before samples n
      rw [Nat.zero_add] at ht
      exact ⟨t, ht⟩

/-- A run of the bench is an open-loop run of the module with the thread of the
monitor on what it shows: the driver takes nothing from either. -/
theorem run_ok {driven : List MutInput} {s sn : σ} {n : ℕ}
    (h : drive m.edge (Bench.inputAt driven) s n = .ok sn) (signals : SingleCycleSignals)
    (before : Sample) :
    ∃ t sent, collectTransactions wakeFuel signals before (observed m driven s) n = .ok (t, sent) ∧
      (World.start s driven signals).run m n =
        .ok ⟨sn, Bench.inputAt driven n, driven.drop (n + 1), t, sent⟩ := by
  induction n generalizing sn with
  | zero =>
      have hspawn := resume_spawn 0 signals before
      rw [Nat.zero_add] at hspawn
      cases h
      refine ⟨_, _, hspawn, ?_⟩
      cases driven <;> rfl
  | succ n ih =>
      obtain ⟨sk, hsk, hedge⟩ := drive_ok_of_succ h
      obtain ⟨t, sent, hthread, hrun⟩ := ih hsk
      obtain ⟨t', ht'⟩ := thread_ok signals before (observed m driven s) (n + 1)
      have hseen : sample m sk (Bench.inputAt driven n) = observed m driven s n := by
        rw [observed, stateAt_of_drive hsk]
      have hnext := ht'
      rw [collectTransactions, hthread] at hnext
      refine ⟨t', _, ht', ?_⟩
      rw [World.run, hrun]
      simp only [Except.bind, World.clock, hedge, hseen]
      cases hres : resume (observed m driven s n) wakeFuel t with
      | error e =>
          simp only [hres] at hnext
          cases hnext
      | ok r =>
          simp only [hres, Except.map, Except.ok.injEq, Prod.mk.injEq] at hnext
          obtain ⟨rfl, hsent⟩ := hnext
          simp only [Bench.drive_inputAt, hsent]

/-- The first edge that fails ends the run. -/
theorem run_error {driven : List MutInput} {s : σ} {n : ℕ} {e : Abort}
    (h : drive m.edge (Bench.inputAt driven) s n = .error e) (signals : SingleCycleSignals) :
    (World.start s driven signals).run m n = .error e := by
  induction n with
  | zero => cases h
  | succ n ih =>
      rw [drive] at h
      rw [World.run]
      cases hdrive : drive m.edge (Bench.inputAt driven) s n with
      | error e' =>
          rw [hdrive] at h
          rw [ih (hdrive.trans h)]
          rfl
      | ok sn =>
          rw [hdrive] at h
          obtain ⟨t, sent, -, hrun⟩ := run_ok hdrive signals (observed m driven s 0)
          have hedge : m.edge sn (Bench.inputAt driven n) = .error e := h
          rw [hrun]
          simp only [Except.bind, World.clock, hedge]

/-- What has been transmitted when `n` edges have passed. -/
theorem run_transmitted {driven : List MutInput} {s sn : σ} {n : ℕ}
    (h : drive m.edge (Bench.inputAt driven) s n = .ok sn) (signals : SingleCycleSignals) :
    ∃ w, (World.start s driven signals).run m n = .ok w ∧
      w.transmitted = (List.range (n - 1)).map fun k => ⟨true, signalsAt m driven s k⟩ := by
  obtain ⟨t, sent, hthread, hrun⟩ := run_ok h signals (observed m driven s 0)
  obtain ⟨t', ht'⟩ := thread_ok signals (observed m driven s 0) (observed m driven s) n
  rw [hthread, Except.ok.injEq, Prod.mk.injEq] at ht'
  exact ⟨_, hrun, ht'.2⟩

/-! ## The verdict -/

theorem covers_signals_iff {driven : List MutInput} {s : σ} {n : ℕ} :
    (∀ a b : InputControls,
        [a, b] <:+: ((List.range (n - 1)).map (signalsAt m driven s)).map (·.stimuli.controls)) ↔
      Covers driven n := by
  refine forall_congr' fun a => forall_congr' fun b => ?_
  rw [List.map_map, Consecutive.infix_map_range_iff]
  refine exists_congr fun k => and_congr ?_ Iff.rfl
  omega

/-- An unstalled module is expected to show the valid datum it is told to advance. -/
theorem predicted_valid {x : SingleCycleSignals} (hstall : x.state_0.ctl.is_stall = false)
    (hinput : x.stimuli.controls = ⟨true, true, false, false, true⟩) :
    (predictSignals x).is_valid = true := by
  have hreset : x.stimuli.ctl.reset = true := congrArg InputControls.reset hinput
  have hadvance : x.stimuli.ctl.is_advance = true := congrArg InputControls.is_advance hinput
  have hflush : x.stimuli.ctl.is_flush = false := congrArg InputControls.is_flush hinput
  have hvalid : x.stimuli.ctl.is_valid = true := congrArg InputControls.is_valid hinput
  simp [predictSignals, hstall, hreset, hadvance, hflush, hvalid]

/-- Full coverage shows a valid datum, if only the control outputs are right. -/
theorem valid_of_covers {driven : List MutInput} {s : σ} {n : ℕ} (hcover : Covers driven n)
    (hctl : ∀ k, k + 1 < n → ControlsAgree (signalsAt m driven s k)) :
    ∃ k, k + 1 < n ∧ (signalsAt m driven s k).state_1.ctl.is_valid = true := by
  obtain ⟨k, hk, -, hadvance⟩ :=
    hcover ⟨true, true, false, false, true⟩ ⟨true, true, false, false, true⟩
  -- the first of the two leaves the module unstalled, the second shows the datum
  obtain ⟨-, -, hstall, -⟩ := hctl k (by omega)
  obtain ⟨-, -, -, hvalid⟩ := hctl (k + 1) (by omega)
  have hstart : (signalsAt m driven s (k + 1)).state_0.ctl.is_stall = false := hstall
  have hinput : (signalsAt m driven s (k + 1)).stimuli.controls =
      ⟨true, true, false, false, true⟩ := hadvance
  refine ⟨k + 1, by omega, ?_⟩
  rw [hvalid]
  exact predicted_valid hstart hinput

/-- The verdict on a run that the module survives. -/
theorem isPass_iff {driven : List MutInput} {s : σ} {n : ℕ} (hn : n < 2 ^ 32) :
    ∃ bench, TestBench.writes .built
        ((List.range (n - 1)).map fun k => ⟨true, signalsAt m driven s k⟩) = .ok bench ∧
      (bench.isPass = true ↔
        Covers driven n ∧ ∀ k, k + 1 < n → AsPredicted (signalsAt m driven s k)) := by
  have hgood : ∀ t ∈ (List.range (n - 1)).map
      fun k => (⟨true, signalsAt m driven s k⟩ : SingleCycleTransaction), t.good = true := by
    rintro t ht
    rcases List.mem_map.mp ht with ⟨k, -, rfl⟩
    rfl
  obtain ⟨reports, hwrites⟩ := TestBench.writes_built _ hgood
  have hsignals : ((List.range (n - 1)).map fun k =>
      (⟨true, signalsAt m driven s k⟩ : SingleCycleTransaction)).map (·.m_value) =
      (List.range (n - 1)).map (signalsAt m driven s) := by
    rw [List.map_map]
    rfl
  rw [hsignals] at hwrites
  refine ⟨_, hwrites, ?_⟩
  rw [TestBench.isPass_ofSignals reports (by rw [List.length_map, List.length_range]; omega),
    covers_signals_iff]
  have hmem : ∀ k, k ∈ List.range (n - 1) ↔ k + 1 < n := by
    intro k
    rw [List.mem_range]
    omega
  simp only [List.forall_mem_map, hmem]
  constructor
  · rintro ⟨⟨-, hctl⟩, ⟨-, hvalue⟩, hcover⟩
    exact ⟨hcover, fun k hk => ⟨hctl k hk, hvalue k hk⟩⟩
  · rintro ⟨hcover, hall⟩
    obtain ⟨k, hk, hvalid⟩ := valid_of_covers hcover fun k hk => (hall k hk).1
    have hshown : signalsAt m driven s k ∈ (List.range (n - 1)).map (signalsAt m driven s) :=
      List.mem_map_of_mem ((hmem k).mpr hk)
    exact ⟨⟨List.ne_nil_of_mem hshown, fun k hk => (hall k hk).1⟩,
      ⟨⟨_, hshown, hvalid⟩, fun k hk => (hall k hk).2⟩, hcover⟩

/-- The run phase ends with the module's own exception or with that verdict. -/
theorem observe_spec (m : ModuleUnderTest σ) (signals : SingleCycleSignals) (s : σ) (idle : ℕ)
    (items : List Request) {clocks : ℕ} (hclocks : clocks < 2 ^ 32) :
    (∃ e, drive m.edge (Bench.inputAt (drivenInputs idle items)) s clocks = .error e ∧
      observe m signals buildPhase s idle items clocks = .error e) ∨
    ∃ sn bench, drive m.edge (Bench.inputAt (drivenInputs idle items)) s clocks = .ok sn ∧
      observe m signals buildPhase s idle items clocks = .ok ⟨false, bench⟩ ∧
      (bench.isPass = true ↔ Covers (drivenInputs idle items) clocks ∧
        ∀ k, k + 1 < clocks → AsPredicted (signalsAt m (drivenInputs idle items) s k)) := by
  cases hdrive : drive m.edge (Bench.inputAt (drivenInputs idle items)) s clocks with
  | error e =>
      refine Or.inl ⟨e, rfl, ?_⟩
      simp only [observe, run_error hdrive, bind, Except.bind]
  | ok sn =>
      obtain ⟨w, hrun, hsent⟩ := run_transmitted hdrive signals
      obtain ⟨bench, hwrites, hpass⟩ := @isPass_iff σ m (drivenInputs idle items) s clocks hclocks
      refine Or.inr ⟨sn, bench, rfl, ?_, hpass⟩
      simp only [observe, buildPhase, hrun, hsent, hwrites, bind, Except.bind, pure, Except.pure]

/-- What `sc_main` returns once the boards have this verdict. -/
theorem scMain_of_observe {s : σ} {beyond : ℕ → Char} {g : Request.Generator}
    {signals : SingleCycleSignals} {sequences : List TestSequence} {items : List Request}
    {idle clocks : ℕ} {bench : TestBench} (hitems : startAll beyond g sequences = .ok items)
    (hrun : observe m signals buildPhase s idle items clocks = .ok ⟨false, bench⟩) :
    scMain m beyond g signals s sequences idle clocks =
      some (if bench.isPass then UvmReturnCode.success else UvmReturnCode.testFail).toInt := by
  simp only [scMain, runTest, hitems, hrun, bind, Except.bind, pure, Except.pure, extractPhase,
    reportPhase, Option.getD_some]
  rfl

/-- The two codes tell the verdicts apart. -/
theorem code_iff (pass : Bool) :
    (some (if pass then UvmReturnCode.success else UvmReturnCode.testFail).toInt =
        some UvmReturnCode.success.toInt ↔ pass = true) ∧
      (some (if pass then UvmReturnCode.success else UvmReturnCode.testFail).toInt =
        some UvmReturnCode.testFail.toInt ↔ ¬ pass = true) := by
  cases pass <;> decide

/-- **The verdict beside any module.** Whatever the module, the sequences and the
random numbers, a run phase that ends of its own makes the program end with the
module's first exception, or return success exactly when every ordered pair of
control combinations was driven ahead of the last clock and every transition the
monitor reported was as predicted, and test failure otherwise. -/
theorem uvm_verdict (m : ModuleUnderTest σ) (s : σ) (beyond : ℕ → Char) (g : Request.Generator)
    (signals : SingleCycleSignals) (sequences : List TestSequence)
    (hidle : ∀ s ∈ sequences, s.m_spinning = false) :
    ∃ items, startAll beyond g sequences = .ok items ∧
      ∀ idle clocks, Finishes idle items clocks →
        (∃ e, drive m.edge (Bench.inputAt (drivenInputs idle items)) s clocks = .error e ∧
          runTest m beyond g signals s sequences idle clocks = .error e) ∨
        ∃ sn, drive m.edge (Bench.inputAt (drivenInputs idle items)) s clocks = .ok sn ∧
          (scMain m beyond g signals s sequences idle clocks =
              some UvmReturnCode.success.toInt ↔
            Covers (drivenInputs idle items) clocks ∧
              ∀ k, k + 1 < clocks → AsPredicted (signalsAt m (drivenInputs idle items) s k)) ∧
          (scMain m beyond g signals s sequences idle clocks =
              some UvmReturnCode.testFail.toInt ↔
            ¬ (Covers (drivenInputs idle items) clocks ∧
              ∀ k, k + 1 < clocks → AsPredicted (signalsAt m (drivenInputs idle items) s k))) := by
  rcases startAll_ok beyond g hidle with ⟨items, hitems⟩
  refine ⟨items, hitems, ?_⟩
  intro idle clocks hends
  rcases observe_spec m signals s idle items hends.lt with
    ⟨e, hdrive, hrun⟩ | ⟨sn, bench, hdrive, hrun, hpass⟩
  · refine Or.inl ⟨e, hdrive, ?_⟩
    simp only [runTest, hitems, hrun, bind, Except.bind]
  · refine Or.inr ⟨sn, hdrive, ?_⟩
    rw [scMain_of_observe hitems hrun, ← hpass]
    exact code_iff bench.isPass

/-- The test as it is shipped, one clock after its last item. -/
theorem uvm_verdict_shipped :
    ∃ items, startAll (fun _ => '?') ⟨fun _ => 0, 0⟩ sequences = .ok items ∧
      ((∃ e, drive shipped.edge (Bench.inputAt (drivenInputs 1 items)) SingleCycle.initialised
            60543 = .error e ∧
          runTest shipped (fun _ => '?') ⟨fun _ => 0, 0⟩ .ugly SingleCycle.initialised sequences
            1 60543 = .error e) ∨
        ∃ sn, drive shipped.edge (Bench.inputAt (drivenInputs 1 items)) SingleCycle.initialised
            60543 = .ok sn ∧
          (scMain shipped (fun _ => '?') ⟨fun _ => 0, 0⟩ .ugly SingleCycle.initialised sequences
              1 60543 = some UvmReturnCode.success.toInt ↔
            Covers (drivenInputs 1 items) 60543 ∧ ∀ k, k + 1 < 60543 →
              AsPredicted (signalsAt shipped (drivenInputs 1 items) SingleCycle.initialised k)) ∧
          (scMain shipped (fun _ => '?') ⟨fun _ => 0, 0⟩ .ugly SingleCycle.initialised sequences
              1 60543 = some UvmReturnCode.testFail.toInt ↔
            ¬ (Covers (drivenInputs 1 items) 60543 ∧ ∀ k, k + 1 < 60543 →
              AsPredicted
                (signalsAt shipped (drivenInputs 1 items) SingleCycle.initialised k)))) := by
  obtain ⟨items, hitems, hverdict⟩ := uvm_verdict shipped SingleCycle.initialised (fun _ => '?')
    ⟨fun _ => 0, 0⟩ .ugly sequences Program.sequences_idle
  have hlen := length_of_startAll Program.sequences_idle hitems
  rw [length_sequences] at hlen
  exact ⟨items, hitems, hverdict 1 60543 ⟨by omega, by decide⟩⟩

/-! ## Complete for what the monitor samples -/

variable (m)

/-- The run phase ends and the test bench passes. -/
def Passes (signals : SingleCycleSignals) (s : σ) (idle : ℕ) (items : List Request)
    (clocks : ℕ) : Prop :=
  ∃ t, observe m signals buildPhase s idle items clocks = .ok t ∧ t.m_test_bench.isPass = true

/-- The module passes whatever items are driven, as long as they cover the pairs
and the run phase ends of its own. -/
def PassesAll (signals : SingleCycleSignals) (s : σ) : Prop :=
  ∀ idle items clocks, Finishes idle items clocks → Covers (drivenInputs idle items) clocks →
    Passes m signals s idle items clocks

/-- Whatever items are driven, the module takes the inputs of the first `n` clocks
and what is sampled at two of them in a row is as predicted. -/
def Conforms (s : σ) (n : ℕ) : Prop :=
  ∀ idle items, (∃ sn, drive m.edge (Bench.inputAt (drivenInputs idle items)) s n = .ok sn) ∧
    ∀ k, k + 1 < n → AsPredicted (signalsAt m (drivenInputs idle items) s k)

variable {m}

theorem inputAt_append {driven more : List MutInput} {k : ℕ} (h : k < driven.length) :
    Bench.inputAt (driven ++ more) k = Bench.inputAt driven k := by
  rw [Bench.inputAt, Bench.inputAt, List.getElem?_append_left h, List.getElem?_eq_getElem h]
  rfl

theorem length_drivenInputs (idle : ℕ) (items : List Request) :
    (drivenInputs idle items).length = idle + items.length := by
  rw [drivenInputs, Driver.dispatchAll_eq, Driver.driven, List.length_append,
    List.length_replicate, List.length_map]

theorem drivenInputs_append (idle : ℕ) (items more : List Request) :
    drivenInputs idle (items ++ more) = drivenInputs idle items ++ Driver.driven more := by
  rw [drivenInputs, drivenInputs, Driver.dispatchAll_eq, Driver.dispatchAll_eq, Driver.driven,
    Driver.driven, Driver.driven, List.map_append, List.append_assoc]

theorem inputAt_replicate (idle k : ℕ) :
    Bench.inputAt (List.replicate idle .powerUp) k = .powerUp := by
  rw [Bench.inputAt, List.getElem?_replicate, List.getLast?_replicate]
  split <;> split <;> rfl

/-- Before the first item, or without one, nothing has been driven. -/
theorem inputAt_idle {idle : ℕ} {items : List Request} {k : ℕ} (h : k < idle ∨ items = []) :
    Bench.inputAt (drivenInputs idle items) k = .powerUp := by
  rcases h with hk | rfl
  · rw [drivenInputs, inputAt_append (by rw [List.length_replicate]; exact hk),
      inputAt_replicate]
  · rw [drivenInputs, Driver.dispatchAll, List.append_nil, inputAt_replicate]

/-- From the first item on there is always one that is driven. -/
theorem inputAt_item {idle : ℕ} {items : List Request} {k : ℕ} (hk : idle ≤ k)
    (hne : items ≠ []) :
    ∃ item, Bench.inputAt (drivenInputs idle items) k = Driver.itemDispatch item .powerUp := by
  have hmem : Bench.inputAt (drivenInputs idle items) k ∈ Driver.driven items := by
    rw [Bench.inputAt, drivenInputs, Driver.dispatchAll_eq,
      List.getElem?_append_right (by rw [List.length_replicate]; exact hk)]
    cases hget : (Driver.driven items)[k - (List.replicate idle MutInput.powerUp).length]? with
    | some inp => exact List.mem_of_getElem? hget
    | none =>
        have hdriven : Driver.driven items ≠ [] := by
          rw [Driver.driven, ne_eq, List.map_eq_nil_iff]
          exact hne
        rw [List.getLast?_append_of_ne_nil _ hdriven, List.getLast?_eq_some_getLast hdriven]
        exact List.getLast_mem hdriven
  rcases List.mem_map.mp hmem with ⟨item, -, hitem⟩
  exact ⟨item, hitem.symm⟩

theorem inputAt_consumed (driven : List MutInput) {n k : ℕ} (h : k < n) :
    Bench.inputAt (Bench.consumed driven n) k = Bench.inputAt driven k := by
  rw [Bench.inputAt, Bench.consumed, List.getElem?_map, List.getElem?_range h]
  rfl

/-- What a run has consumed could have been driven without holding an input. -/
theorem consumed_driven (idle : ℕ) (items : List Request) (n : ℕ) :
    ∃ idle' items', Bench.consumed (drivenInputs idle items) n = drivenInputs idle' items' ∧
      (n ≤ idle ∨ items = [] → items' = []) := by
  induction n with
  | zero => exact ⟨0, [], rfl, fun _ => rfl⟩
  | succ n ih =>
      obtain ⟨idle', items', heq, hnil⟩ := ih
      have hstep : Bench.consumed (drivenInputs idle items) (n + 1) =
          drivenInputs idle' items' ++ [Bench.inputAt (drivenInputs idle items) n] := by
        rw [← heq, Bench.consumed, List.range_succ, List.map_append]
        rfl
      by_cases hidle : n < idle ∨ items = []
      · obtain rfl := hnil (hidle.imp_left Nat.le_of_lt)
        refine ⟨idle' + 1, [], ?_, fun _ => rfl⟩
        rw [hstep, inputAt_idle hidle]
        simp only [drivenInputs, Driver.dispatchAll, List.append_nil, List.replicate_succ']
      · rw [not_or, not_lt] at hidle
        obtain ⟨item, hitem⟩ := inputAt_item hidle.1 hidle.2
        refine ⟨idle', items' ++ [item], ?_, ?_⟩
        · rw [hstep, hitem, drivenInputs_append]
          rfl
        · rintro (hle | hempty)
          · omega
          · exact absurd hempty hidle.2

/-- The items of one pair sequence behind any others complete the coverage. -/
theorem covers_with_pairs (idle : ℕ) (items : List Request) :
    Covers (drivenInputs idle (items ++ allControlPairsBody (fun _ => '?') 1))
      (idle + (items ++ allControlPairsBody (fun _ => '?') 1).length) := by
  have hsent : allControlPairsBody (fun _ => '?') 1 <:+:
      items ++ allControlPairsBody (fun _ => '?') 1 := (List.suffix_append _ _).isInfix
  obtain ⟨es, b, -, hinv, -, -⟩ := Bench.run_consumed
    (drivenInputs idle (items ++ allControlPairsBody (fun _ => '?') 1)) .ugly
    (idle + (items ++ allControlPairsBody (fun _ => '?') 1).length)
  have hdriven := EndToEnd.driven_infix hinv (by rw [Bench.consumed, List.length_map,
    List.length_range])
  rw [← covers_iff]
  exact fun a b => EndToEnd.covers_of_driven _ (le_refl 1) hsent hdriven a b

theorem length_pairs : (allControlPairsBody (fun _ => '?') 1).length = 2050 := by
  rw [allControlPairsBody, List.length_append, List.range_one, List.flatMap_singleton,
    length_pairItems]
  rfl

/-- What a passing run says of the module. -/
theorem conforms_of_passes {signals : SingleCycleSignals} {s : σ} {idle clocks : ℕ}
    {items : List Request} (hclocks : clocks < 2 ^ 32)
    (h : Passes m signals s idle items clocks) :
    (∃ sn, drive m.edge (Bench.inputAt (drivenInputs idle items)) s clocks = .ok sn) ∧
      ∀ k, k + 1 < clocks → AsPredicted (signalsAt m (drivenInputs idle items) s k) := by
  obtain ⟨t, ht, hpass⟩ := h
  rcases observe_spec m signals s idle items hclocks with
    ⟨e, -, hrun⟩ | ⟨sn, bench, hdrive, hrun, hverdict⟩
  · rw [hrun] at ht
    cases ht
  · rw [hrun, Except.ok.injEq] at ht
    subst ht
    exact ⟨⟨sn, hdrive⟩, (hverdict.mp hpass).2⟩

/-- **Complete for what is sampled.** A module that passes under every covering
stimulus of driver items, when the run phase ends of its own, takes every input
that items can make and makes only the predicted transitions between two samples of
the monitor, but for the last 2050 clocks, which the pairs need; a module that does
so throughout passes under every such stimulus. -/
theorem uvm_complete (m : ModuleUnderTest σ) (signals : SingleCycleSignals) (s : σ) :
    (PassesAll m signals s → Conforms m s (runTime - 2050)) ∧
      (Conforms m s runTime → PassesAll m signals s) := by
  have hroom : 2050 ≤ runTime := by decide
  have hsmall : runTime < 2 ^ 32 := by decide
  constructor
  · intro hall idle items
    obtain ⟨idle', items', hconsumed, -⟩ := consumed_driven idle items (runTime - 2050)
    have hlen : (drivenInputs idle' items').length = runTime - 2050 := by
      rw [← hconsumed, Bench.consumed, List.length_map, List.length_range]
    -- the run so far, with the pairs behind it
    have hsame : ∀ k < runTime - 2050, Bench.inputAt (drivenInputs idle items) k =
        Bench.inputAt (drivenInputs idle' (items' ++ allControlPairsBody (fun _ => '?') 1)) k := by
      intro k hk
      rw [drivenInputs_append, inputAt_append (by omega), ← hconsumed, inputAt_consumed _ hk]
    have htotal : idle' + (items' ++ allControlPairsBody (fun _ => '?') 1).length = runTime := by
      rw [length_drivenInputs] at hlen
      rw [List.length_append, length_pairs]
      omega
    have hcover := covers_with_pairs idle' items'
    rw [htotal] at hcover
    obtain ⟨⟨sn, hdrive⟩, hpredicted⟩ :=
      conforms_of_passes hsmall (hall idle' _ runTime ⟨htotal.le, le_refl _⟩ hcover)
    obtain ⟨sm, hsm⟩ := drive_ok_of_le (Nat.sub_le runTime 2050) hdrive
    refine ⟨⟨sm, (drive_congr hsame).trans hsm⟩, fun k hk => ?_⟩
    rw [signalsAt_congr hsame hk]
    exact hpredicted k (by omega)
  · intro hall idle items clocks hends hcover
    have hclocks := hends.in_time
    obtain ⟨⟨sn, hdrive⟩, hpredicted⟩ := hall idle items
    obtain ⟨sm, hsm⟩ := drive_ok_of_le hclocks hdrive
    rcases observe_spec m signals s idle items hends.lt with
      ⟨e, herr, -⟩ | ⟨sn', bench, -, hrun, hverdict⟩
    · rw [hsm] at herr
      cases herr
    · refine ⟨⟨false, bench⟩, hrun, hverdict.mpr ⟨hcover, fun k hk => ?_⟩⟩
      exact hpredicted k (by omega)

/-! ## The module that ships -/

theorem shipped_drive (input : ℕ → MutInput) (n : ℕ) :
    ∃ sn, drive shipped.edge input SingleCycle.initialised n = .ok sn ∧
      SingleCycle.Unstalled sn := by
  induction n with
  | zero => exact ⟨_, rfl, SingleCycle.initialised_unstalled⟩
  | succ n ih =>
      obtain ⟨sn, hdrive, hun⟩ := ih
      obtain ⟨sn', hedge, hun'⟩ := SingleCycle.edge_total sn (input n) hun
      exact ⟨sn', (drive_succ_ok hdrive).trans hedge, hun'⟩

/-- The edge of clock `k` in the module that ships. -/
def edgeAt (driven : List MutInput) (k : ℕ) : Run.Edge MutOutput MutInput where
  before := stateAt shipped (Bench.inputAt driven) SingleCycle.initialised k
  input := Bench.inputAt driven k
  after := stateAt shipped (Bench.inputAt driven) SingleCycle.initialised (k + 1)

theorem edgeAt_spec (driven : List MutInput) (k : ℕ) :
    SingleCycle.Unstalled (edgeAt driven k).before ∧
      SingleCycle.EdgeSpec (edgeAt driven k).before (edgeAt driven k).input
        (edgeAt driven k).after := by
  obtain ⟨s₁, hs₁, hun⟩ := shipped_drive (Bench.inputAt driven) k
  obtain ⟨s₂, hs₂, -⟩ := shipped_drive (Bench.inputAt driven) (k + 1)
  have hedge := (drive_succ_ok hs₁).symm.trans hs₂
  rw [edgeAt, stateAt_of_drive hs₁, stateAt_of_drive hs₂]
  exact ⟨hun, SingleCycle.edgeSpec_of_edge hun hedge⟩

theorem shipped_conforms (n : ℕ) : Conforms shipped SingleCycle.initialised n := by
  intro idle items
  obtain ⟨sn, hdrive, -⟩ := shipped_drive (Bench.inputAt (drivenInputs idle items)) n
  refine ⟨⟨sn, hdrive⟩, ?_⟩
  intro k hk
  obtain ⟨-, hspec⟩ := edgeAt_spec (drivenInputs idle items) k
  have hsignals : signalsAt shipped (drivenInputs idle items) SingleCycle.initialised k =
      edgeSignals (edgeAt (drivenInputs idle items) k) := rfl
  rw [hsignals]
  exact ⟨Oracle.controlsAgree_of_edge hspec, Oracle.valueAgrees_of_edge hspec⟩

/-- The module that ships passes under every covering stimulus. -/
theorem uvm_complete_shipped :
    PassesAll shipped .ugly SingleCycle.initialised :=
  (uvm_complete shipped .ugly SingleCycle.initialised).2 (shipped_conforms runTime)

end PipelineBench.AnyModule
