import PipelineBench.Uvm.Test
import PipelineBench.Verify.EndToEnd

/-!
# The code the program returns

The module always agrees with its predictor, so the return code of the whole
program depends on one thing: which control combinations the sequences drove on
consecutive clocks before the phase ended.
-/

namespace PipelineBench.Program

open Run SingleCycle Monitor Transaction Sequence EndToEnd UvmTest

/-! ## The verdict is coverage -/

/-- Every ordered pair of control combinations is driven on two consecutive
clocks, ahead of the last clock, which is never reported. -/
def Covers (driven : List MutInput) (clocks : ℕ) : Prop :=
  ∀ a b : InputControls, ∃ k, k + 2 < clocks ∧
    inputControls (Bench.inputAt driven k) = a ∧ inputControls (Bench.inputAt driven (k + 1)) = b

theorem covers_iff {driven : List MutInput} {clocks : ℕ} :
    (∀ a b : InputControls, [a, b] <:+: (Bench.consumed driven clocks).dropLast.map inputControls) ↔
      Covers driven clocks := by
  have hlist : (Bench.consumed driven clocks).dropLast.map inputControls =
      (List.range (clocks - 1)).map fun k => inputControls (Bench.inputAt driven k) := by
    cases clocks with
    | zero => rfl
    | succ n =>
        rw [Bench.consumed, List.range_succ, List.map_append, List.map_singleton,
          List.dropLast_concat, List.map_map]
        rfl
  refine forall_congr' fun a => forall_congr' fun b => ?_
  rw [hlist, Consecutive.infix_map_range_iff]
  refine exists_congr fun k => and_congr_left fun _ => ?_
  omega

/-- The module earns every other part of the verdict by itself. -/
theorem isPass_iff_covered {is : List MutInput} {es : List (Edge MutOutput MutInput)}
    (hhist : history edge initialised is = .ok es) (hlen : is.length < 2 ^ 32) :
    ∃ bench, TestBench.writes .built (es.dropLast.map edgeTransaction) = .ok bench ∧
      (bench.isPass = true ↔ ∀ a b : InputControls, [a, b] <:+: is.dropLast.map inputControls) := by
  have hgood : ∀ t ∈ es.dropLast.map edgeTransaction, t.good = true := by
    intro t ht
    rcases List.mem_map.mp ht with ⟨e, -, rfl⟩
    rfl
  have hsignals : (es.dropLast.map edgeTransaction).map (·.m_value) =
      es.dropLast.map edgeSignals := by
    rw [List.map_map]
    rfl
  rcases TestBench.writes_built _ hgood with ⟨reports, hwrites⟩
  refine ⟨_, hwrites, ?_⟩
  constructor
  · intro hpass
    have hes : es.length = is.length := history_length hhist
    rw [hsignals, TestBench.isPass_ofSignals reports (by
      rw [List.length_map, List.length_dropLast]
      omega), controls_of_history hhist] at hpass
    exact hpass.2.2
  · intro hcover
    rcases verdict_of_history hhist hlen hcover with ⟨bench, hbench, hpass⟩
    rw [hwrites, Except.ok.injEq] at hbench
    rw [hbench]
    exact hpass

/-- The run phase always ends, and leaves the test bench with that verdict. -/
theorem runPhase_spec (beyond : ℕ → Char) (g : Request.Generator) (signals : SingleCycleSignals)
    {sequences : List TestSequence} {items : List Request}
    (hitems : startAll beyond g sequences = .ok items) (idle : ℕ) {clocks : ℕ}
    (hclocks : clocks < 2 ^ 32) :
    ∃ bench, runPhase beyond g signals buildPhase sequences idle clocks = .ok ⟨false, bench⟩ ∧
      (bench.isPass = true ↔ Covers (drivenInputs idle items) clocks) := by
  obtain ⟨es, b, hrun, hinv, -, -⟩ :=
    Bench.run_consumed (drivenInputs idle items) signals clocks
  have hlen : (Bench.consumed (drivenInputs idle items) clocks).length < 2 ^ 32 := by
    rw [Bench.consumed, List.length_map, List.length_range]
    exact hclocks
  obtain ⟨bench, hwrites, hpass⟩ := isPass_iff_covered hinv.history hlen
  rw [← hinv.watching.transmitted] at hwrites
  refine ⟨bench, ?_, hpass.trans covers_iff⟩
  simp only [runPhase, buildPhase, hitems, hrun, hwrites, bind, Except.bind, pure, Except.pure]

/-- What `sc_main` returns, and what the report says. -/
theorem runTest_spec (beyond : ℕ → Char) (g : Request.Generator) (signals : SingleCycleSignals)
    {sequences : List TestSequence} {items : List Request}
    (hitems : startAll beyond g sequences = .ok items) (idle : ℕ) {clocks : ℕ}
    (hclocks : clocks < 2 ^ 32) :
    (Covers (drivenInputs idle items) clocks ∧
      runTest beyond g signals sequences idle clocks =
        .ok (⟨.info, "PASS/FAIL", "** UVM TEST PASSED **"⟩,
          ⟨some UvmReturnCode.success.toInt⟩)) ∨
    (¬ Covers (drivenInputs idle items) clocks ∧
      runTest beyond g signals sequences idle clocks =
        .ok (⟨.error, "PASS/FAIL", "** UVM TEST FAIL **"⟩,
          ⟨some UvmReturnCode.testFail.toInt⟩)) := by
  obtain ⟨bench, hphase, hpass⟩ := runPhase_spec beyond g signals hitems idle hclocks
  cases hverdict : bench.isPass with
  | true =>
      refine Or.inl ⟨hpass.mp hverdict, ?_⟩
      simp only [runTest, hphase, bind, Except.bind, pure, Except.pure, extractPhase, hverdict,
        reportPhase, if_true]
  | false =>
      refine Or.inr ⟨?_, ?_⟩
      · intro hcover
        rw [← hpass, hverdict] at hcover
        exact absurd hcover (by decide)
      · simp only [runTest, hphase, bind, Except.bind, pure, Except.pure, extractPhase, hverdict,
          reportPhase]
        rfl

/-- The code returned tells whether the pairs were covered. -/
theorem scMain_iff (beyond : ℕ → Char) (g : Request.Generator) (signals : SingleCycleSignals)
    {sequences : List TestSequence} {items : List Request}
    (hitems : startAll beyond g sequences = .ok items) (idle : ℕ) {clocks : ℕ}
    (hclocks : clocks < 2 ^ 32) :
    (scMain beyond g signals sequences idle clocks = some UvmReturnCode.success.toInt ↔
        Covers (drivenInputs idle items) clocks) ∧
      (scMain beyond g signals sequences idle clocks = some UvmReturnCode.testFail.toInt ↔
        ¬ Covers (drivenInputs idle items) clocks) := by
  rcases runTest_spec beyond g signals hitems idle hclocks with ⟨hcover, hrun⟩ | ⟨hcover, hrun⟩
  · have hcode : scMain beyond g signals sequences idle clocks =
        some UvmReturnCode.success.toInt := by
      rw [scMain, hrun]
      rfl
    rw [hcode]
    exact ⟨iff_of_true rfl hcover, iff_of_false (by decide) (not_not_intro hcover)⟩
  · have hcode : scMain beyond g signals sequences idle clocks =
        some UvmReturnCode.testFail.toInt := by
      rw [scMain, hrun]
      rfl
    rw [hcode]
    exact ⟨iff_of_false (by decide) hcover, iff_of_true rfl hcover⟩

/-- How many items each sequence sends. -/
theorem length_doBody (beyond : ℕ → Char) (s : TestSequence) :
    (s.doBody beyond).length =
      match s.kind with
      | .repeatT => s.m_count.toNat
      | .allControlPairs => s.m_count.toNat * (2 * 1024) + 2
      | .randomWeighted => s.m_count.toNat + 4
      | .randomLoop => s.m_count.toNat + 4
      | .flushWAdvanceNeverAdvances => s.m_count.toNat + 6
      | .errorWAdvanceValid => 6
      | .resetAdvanceWithOutValid => s.m_count.toNat + 12 := by
  obtain ⟨kind, count, spinning⟩ := s
  cases kind with
  | repeatT => exact List.length_replicate
  | allControlPairs =>
      show (allControlPairsBody beyond count.toNat).length = _
      rw [allControlPairsBody, List.length_append, List.length_flatMap]
      simp only [length_pairItems, List.map_const', List.length_range, List.sum_replicate_nat,
        List.length_cons, List.length_nil, Nat.zero_add, Nat.reduceAdd]
  | randomWeighted => simp [TestSequence.doBody, randomWeightedBody]
  | randomLoop => simp [TestSequence.doBody, randomLoopBody]
  | flushWAdvanceNeverAdvances =>
      simp [TestSequence.doBody, flushWAdvanceNeverAdvancesBody]
  | errorWAdvanceValid => rfl
  | resetAdvanceWithOutValid =>
      simp [TestSequence.doBody, resetAdvanceWithOutValidBody]

/-- As many items are sent as the sequences have. -/
theorem length_of_startAll {beyond : ℕ → Char} {g : Request.Generator}
    {sequences : List TestSequence} (hidle : ∀ s ∈ sequences, s.m_spinning = false)
    {items : List Request} (hitems : startAll beyond g sequences = .ok items) :
    items.length = (sequences.flatMap (·.doBody beyond)).length := by
  rw [startAll_eq beyond g hidle, Except.ok.injEq] at hitems
  rw [← hitems, length_sendItems]

theorem make_idle (kind : Kind) (count : Unsigned) :
    ∀ s ∈ [TestSequence.make kind count], s.m_spinning = false :=
  List.forall_mem_singleton.mpr rfl

/-- A test of one sequence. -/
theorem length_of_make {beyond : ℕ → Char} {g : Request.Generator} {kind : Kind}
    {count : Unsigned} {items : List Request}
    (hitems : startAll beyond g [.make kind count] = .ok items) :
    items.length = ((TestSequence.make kind count).doBody beyond).length := by
  rw [length_of_startAll (make_idle kind count) hitems, List.flatMap_singleton]

/-- **The return code is the coverage.** Whatever the sequences, the random
numbers and the timing, a run phase that ends of its own makes the program return
success when every ordered pair of control combinations was driven on consecutive
clocks ahead of the last one, and test failure otherwise. -/
theorem return_code_is_coverage (beyond : ℕ → Char) (g : Request.Generator)
    (signals : SingleCycleSignals) (sequences : List TestSequence)
    (hidle : ∀ s ∈ sequences, s.m_spinning = false) :
    ∃ items, startAll beyond g sequences = .ok items ∧
      ∀ idle clocks, Finishes idle items clocks →
        (scMain beyond g signals sequences idle clocks = some UvmReturnCode.success.toInt ↔
          Covers (drivenInputs idle items) clocks) ∧
        (scMain beyond g signals sequences idle clocks = some UvmReturnCode.testFail.toInt ↔
          ¬ Covers (drivenInputs idle items) clocks) := by
  rcases startAll_ok beyond g hidle with ⟨items, hitems⟩
  refine ⟨items, hitems, ?_⟩
  intro idle clocks hends
  exact scMain_iff beyond g signals hitems idle hends.lt

/-- One iteration of the pair sequence, ended right after its last item. -/
theorem return_code_is_coverage_pairs :
    ∃ items, startAll (fun _ => '?') ⟨fun _ => 0, 0⟩ [.make .allControlPairs 1] = .ok items ∧
      (scMain (fun _ => '?') ⟨fun _ => 0, 0⟩ .ugly [.make .allControlPairs 1] 1 2051 =
          some UvmReturnCode.success.toInt ↔ Covers (drivenInputs 1 items) 2051) ∧
      (scMain (fun _ => '?') ⟨fun _ => 0, 0⟩ .ugly [.make .allControlPairs 1] 1 2051 =
          some UvmReturnCode.testFail.toInt ↔ ¬ Covers (drivenInputs 1 items) 2051) := by
  obtain ⟨items, hitems, hcode⟩ :=
    return_code_is_coverage (fun _ => '?') ⟨fun _ => 0, 0⟩ .ugly _ (make_idle .allControlPairs 1)
  have hlen := length_of_make hitems
  rw [length_doBody] at hlen
  have hends : Finishes 1 items 2051 := ⟨hlen ▸ by decide, by decide⟩
  exact ⟨items, hitems, hcode 1 2051 hends⟩

/-! ## The test as it is shipped -/

theorem sequences_idle : ∀ s ∈ sequences, s.m_spinning = false := by
  simp [sequences, TestSequence.make]

/-- All the items of the shipped test, well within the time it is given. -/
theorem length_sequences (beyond : ℕ → Char) :
    (sequences.flatMap (·.doBody beyond)).length = 60541 := by
  rw [List.length_flatMap]
  simp only [length_doBody, sequences, TestSequence.make, List.map_cons, List.map_nil]
  rfl

/-- The run has consumed everything the sequences sent. -/
theorem covers_of_pairs (beyond : ℕ → Char) (g : Request.Generator)
    {sequences : List TestSequence} {s : TestSequence} (hs : s ∈ sequences)
    (hkind : s.kind = .allControlPairs) (hcount : 1 ≤ s.m_count.toNat)
    (hidle : ∀ s ∈ sequences, s.m_spinning = false) {items : List Request}
    (hitems : startAll beyond g sequences = .ok items) {idle clocks : ℕ}
    (hend : idle + items.length ≤ clocks) : Covers (drivenInputs idle items) clocks := by
  rw [← covers_iff]
  obtain ⟨es, b, -, hinv, -, -⟩ := Bench.run_consumed (inputs idle items) .ugly clocks
  have hlen : (Bench.consumed (inputs idle items) clocks).length = clocks := by
    rw [Bench.consumed, List.length_map, List.length_range]
  have hdriven := driven_infix hinv (hlen.symm ▸ hend)
  intro a b
  exact covers_of_driven beyond hcount (allControlPairs_sent beyond g hs hkind hidle hitems)
    hdriven a b

/-- **The shipped test succeeds.** For every stream of random numbers, however
long the driver idles and whenever the phase ends, once the 60541 items of the
nine sequences have been consumed and before the time runs out, the test is
reported as passed and the program returns success. -/
theorem shipped_test_succeeds (beyond : ℕ → Char) (g : Request.Generator)
    (signals : SingleCycleSignals) :
    ∃ items, startAll beyond g sequences = .ok items ∧ items.length = 60541 ∧
      ∀ idle clocks, idle + items.length ≤ clocks → clocks ≤ runTime →
        runTest beyond g signals sequences idle clocks =
            .ok (⟨.info, "PASS/FAIL", "** UVM TEST PASSED **"⟩,
              ⟨some UvmReturnCode.success.toInt⟩) ∧
          scMain beyond g signals sequences idle clocks = some UvmReturnCode.success.toInt := by
  have hitems := startAll_eq beyond g sequences_idle
  refine ⟨_, hitems, ?_, ?_⟩
  · rw [length_sendItems, length_sequences]
  · intro idle clocks hend hclocks
    have hpairs : TestSequence.make .allControlPairs
        (TestSequence.countDefault .allControlPairs) ∈ sequences := by simp [sequences]
    have hcover := covers_of_pairs beyond g hpairs rfl (by decide) sequences_idle hitems hend
    have hlt : clocks < 2 ^ 32 := lt_of_le_of_lt hclocks (by decide)
    rcases runTest_spec beyond g signals hitems idle hlt with ⟨-, hrun⟩ | ⟨hno, -⟩
    · refine ⟨hrun, ?_⟩
      rw [scMain, hrun]
      rfl
    · exact absurd hcover hno

/-! ## Tests without the pair sequence -/

/-- The sequences that neither enumerate nor draw their controls. -/
def IsDirected (kind : Kind) : Prop :=
  kind ≠ .allControlPairs ∧ kind ≠ .randomWeighted ∧ kind ≠ .randomLoop

instance (kind : Kind) : Decidable (IsDirected kind) := by
  unfold IsDirected; infer_instance

theorem inputAt_mem (driven : List MutInput) (k : ℕ) :
    Bench.inputAt driven k = .powerUp ∨ Bench.inputAt driven k ∈ driven := by
  rw [Bench.inputAt]
  cases hk : driven[k]? with
  | some i => exact Or.inr (List.mem_of_getElem? hk)
  | none =>
      cases hlast : driven.getLast? with
      | none => exact Or.inl rfl
      | some i => exact Or.inr (List.mem_of_getLast? hlast)

/-- Every clock shows the inputs at power up or those of an item. -/
theorem inputAt_drivenInputs (idle : ℕ) (items : List Request) (k : ℕ) :
    Bench.inputAt (drivenInputs idle items) k = .powerUp ∨
      ∃ item ∈ items, Bench.inputAt (drivenInputs idle items) k =
        Driver.itemDispatch item .powerUp := by
  rcases inputAt_mem (drivenInputs idle items) k with hpower | hmem
  · exact Or.inl hpower
  · rw [drivenInputs, Driver.dispatchAll_eq, List.mem_append, List.mem_replicate,
      Driver.driven, List.mem_map] at hmem
    rcases hmem with ⟨-, hpower⟩ | ⟨item, hitem, heq⟩
    · rw [drivenInputs, Driver.dispatchAll_eq, Driver.driven]
      exact Or.inl hpower
    · rw [drivenInputs, Driver.dispatchAll_eq, Driver.driven]
      exact Or.inr ⟨item, hitem, heq.symm⟩

/-- A combination that no item drives is never observed. -/
theorem not_covers_of_forall_ne {idle clocks : ℕ} {items : List Request} {c : InputControls}
    (hidle : c ≠ inputControls .powerUp) (hitems : ∀ item ∈ items, Driver.controlsOf item ≠ c) :
    ¬ Covers (drivenInputs idle items) clocks := by
  intro hcover
  rcases hcover c c with ⟨k, -, hk, -⟩
  rcases inputAt_drivenInputs idle items k with hpower | ⟨item, hitem, heq⟩
  · rw [hpower] at hk
    exact hidle hk.symm
  · rw [heq, inputControls_dispatch] at hk
    exact hitems item hitem hk

/-- Every item that the directed sequences send. -/
def directedItems : List Request :=
  repeatBody 1 ++ flushWAdvanceNeverAdvancesBody 1 ++ errorWAdvanceValidBody ++
    resetAdvanceWithOutValidBody 1

theorem mem_directedItems (beyond : ℕ → Char) {s : TestSequence} (h : IsDirected s.kind) :
    ∀ item ∈ s.doBody beyond, item ∈ directedItems := by
  obtain ⟨kind, count, spinning⟩ := s
  intro item hitem
  simp only [directedItems, List.mem_append]
  cases kind with
  | repeatT =>
      rw [List.eq_of_mem_replicate hitem]
      exact Or.inl (Or.inl (Or.inl (List.mem_cons_self ..)))
  | allControlPairs => exact absurd rfl h.1
  | randomWeighted => exact absurd rfl h.2.1
  | randomLoop => exact absurd rfl h.2.2
  | flushWAdvanceNeverAdvances =>
      -- the counted item is the same however often it is sent
      refine Or.inl (Or.inl (Or.inr ?_))
      simp only [TestSequence.doBody, flushWAdvanceNeverAdvancesBody, List.mem_append,
        List.mem_replicate] at hitem ⊢
      exact hitem.imp_left (Or.imp_right fun hhold => ⟨Nat.one_ne_zero, hhold.2⟩)
  | errorWAdvanceValid => exact Or.inl (Or.inr hitem)
  | resetAdvanceWithOutValid =>
      refine Or.inr ?_
      simp only [TestSequence.doBody, resetAdvanceWithOutValidBody, List.mem_append,
        List.mem_replicate] at hitem ⊢
      exact hitem.imp_left (Or.imp_right fun hhold => ⟨Nat.one_ne_zero, hhold.2⟩)

/-- No directed sequence asserts an error and a flush at once. -/
theorem controls_of_directed : ∀ item ∈ directedItems,
    item.IsFixed ∧ Driver.controlsOf item ≠ ⟨true, true, true, true, true⟩ := by
  decide

/-- **Directed sequences do not make a test.** Any list of them, with any
counts and in any order, makes a run phase that ends of its own end in test
failure: coverage stays incomplete. -/
theorem directed_sequences_fail (beyond : ℕ → Char) (g : Request.Generator)
    (signals : SingleCycleSignals) (sequences : List TestSequence)
    (hidle : ∀ s ∈ sequences, s.m_spinning = false)
    (hdirected : ∀ s ∈ sequences, IsDirected s.kind) :
    ∃ items, startAll beyond g sequences = .ok items ∧
      ∀ idle clocks, Finishes idle items clocks →
        runTest beyond g signals sequences idle clocks =
            .ok (⟨.error, "PASS/FAIL", "** UVM TEST FAIL **"⟩,
              ⟨some UvmReturnCode.testFail.toInt⟩) ∧
          scMain beyond g signals sequences idle clocks = some UvmReturnCode.testFail.toInt := by
  have hbody : ∀ item ∈ sequences.flatMap (·.doBody beyond), item.IsFixed ∧
      Driver.controlsOf item ≠ ⟨true, true, true, true, true⟩ := by
    intro item hitem
    rcases List.mem_flatMap.mp hitem with ⟨s, hs, hmem⟩
    exact controls_of_directed item (mem_directedItems beyond (hdirected s hs) item hmem)
  have hitems := startAll_eq beyond g hidle
  rw [sendItems_of_isFixed g fun item hitem => (hbody item hitem).1] at hitems
  refine ⟨_, hitems, ?_⟩
  intro idle clocks hends
  have hno : ¬ Covers (drivenInputs idle (sequences.flatMap (·.doBody beyond))) clocks :=
    not_covers_of_forall_ne (by decide) fun item hitem => (hbody item hitem).2
  rcases runTest_spec beyond g signals hitems idle hends.lt with ⟨hcover, -⟩ | ⟨-, hrun⟩
  · exact absurd hcover hno
  · refine ⟨hrun, ?_⟩
    rw [scMain, hrun]
    rfl

/-- The flush sequence alone, with time to spare. -/
theorem directed_sequences_fail_flush :
    scMain (fun _ => '?') ⟨fun _ => 0, 0⟩ .ugly
        [.make .flushWAdvanceNeverAdvances (TestSequence.countDefault .flushWAdvanceNeverAdvances)]
        1 runTime =
      some UvmReturnCode.testFail.toInt := by
  obtain ⟨items, hitems, hcode⟩ := directed_sequences_fail (fun _ => '?') ⟨fun _ => 0, 0⟩ .ugly
    [.make .flushWAdvanceNeverAdvances (TestSequence.countDefault .flushWAdvanceNeverAdvances)]
    (make_idle _ _) (by simp [TestSequence.make, IsDirected])
  have hlen := length_of_make hitems
  rw [length_doBody] at hlen
  have hends : Finishes 1 items runTime := ⟨hlen ▸ by decide, le_rfl⟩
  exact (hcode 1 runTime hends).2

end PipelineBench.Program
