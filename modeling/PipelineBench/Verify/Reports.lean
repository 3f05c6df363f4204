import PipelineBench.Foundation.Text
import PipelineBench.Verify.AnyVerdict

/-!
# What the score boards print

A board prints one report for each failure it counts. The log of a run is then
the list of its mismatches in the order of the clocks, and can be read back.
-/

namespace PipelineBench.Reports

open SelfCheck Transaction Predictor ScoreBoard UvmTest AnyModule

/-! ## One report -/

/-- What a report is about. -/
inductive Mismatch where
  | controls (observed : ControlOut) (expected : Controls)
  | value (value_out value_predicted : Word)
  deriving DecidableEq, Repr

def Mismatch.report : Mismatch → Report
  | .controls observed expected => ControlBits.failure observed expected
  | .value value_out value_predicted => DataValues.failure value_out value_predicted

/-- The one character of a printed bit. -/
def bitChar (b : Bool) : Char := if b then '1' else '0'

theorem toList_showBit (b : Bool) : (Format.showBit b).toList = [bitChar b] := by
  cases b <;> rfl

theorem bitChar_inj {a b : Bool} : bitChar a = bitChar b ↔ a = b := by
  cases a <;> cases b <;> decide

theorem toList_showHex (v : Word) :
    (showHex v).toList = if v = 0 then ['0'] else '0' :: 'x' :: Nat.toDigits 16 v.toNat := by
  rw [showHex]
  split
  · rfl
  · simp only [String.toList_append, String.toList_ofList]
    rfl

theorem stop_notMem_showHex (v : Word) : '.' ∉ (showHex v).toList := by
  rw [toList_showHex]
  split
  · decide
  · rintro (_ | ⟨_, _ | ⟨_, hmem⟩⟩)
    obtain ⟨d, hd, hdigit⟩ := Text.mem_toDigits (b := 16) (by decide) v.toNat hmem
    have hall : ∀ d < 16, '.' ≠ Nat.digitChar d := by decide
    exact hall d hd hdigit

theorem showHex_inj {v w : Word} (h : (showHex v).toList = (showHex w).toList) : v = w := by
  rw [toList_showHex, toList_showHex] at h
  split at h <;> split at h <;> rename_i hv hw
  · rw [hv, hw]
  · cases h
  · cases h
  · have hdigits : Nat.toDigits 16 v.toNat = Nat.toDigits 16 w.toNat :=
      (List.cons.inj (List.cons.inj h).2).2
    exact BitVec.eq_of_toNat_eq (Text.toDigits_inj (by decide) (le_refl 16) hdigits)

theorem toList_controlsFailure (o : ControlOut) (e : Controls) :
    (ControlBits.failure o e).message.toList =
      "\n  CONTROL OUTPUT VALUE TEST FAILED: \n    Observed [A/E/S/V]: ".toList ++
        (bitChar o.is_advance :: '/' :: bitChar o.is_error :: '/' :: bitChar o.is_stall :: '/' ::
          bitChar o.is_valid :: (". \n    Expected [A/E/S/V]: ".toList ++
        (bitChar e.is_advance :: '/' :: bitChar e.is_error :: '/' :: bitChar e.is_stall :: '/' ::
          bitChar e.is_valid :: ". \n".toList))) := by
  simp only [ControlBits.failure, String.toList_append, List.append_assoc, toList_showBit]
  rfl

theorem toList_valueFailure (value_out value_predicted : Word) :
    (DataValues.failure value_out value_predicted).message.toList =
      "\n  DATA VALUE OUTPUT TEST FAILED: \n    Observed: ".toList ++
        ((showHex value_out).toList ++ '.' :: (" \n    Expected: ".toList ++
          ((showHex value_predicted).toList ++ '.' :: " \n".toList))) := by
  simp only [DataValues.failure, String.toList_append, List.append_assoc]
  rfl

/-- The title tells the two boards apart. -/
theorem message_ne (o : ControlOut) (e : Controls) (p q : Word) :
    (ControlBits.failure o e).message.toList ≠ (DataValues.failure p q).message.toList := by
  intro h
  have hcontrols : (ControlBits.failure o e).message.toList.take 4 = ['\n', ' ', ' ', 'C'] := by
    rw [toList_controlsFailure]
    rfl
  have hvalue : (DataValues.failure p q).message.toList.take 4 = ['\n', ' ', ' ', 'D'] := by
    rw [toList_valueFailure]
    rfl
  rw [h, hvalue] at hcontrols
  exact absurd hcontrols (by decide)

/-- The text of a report says which board made it and both of its readings. -/
theorem report_injective : Function.Injective Mismatch.report := by
  intro a b h
  have hchars : a.report.message.toList = b.report.message.toList :=
    congrArg (String.toList ·.message) h
  cases a with
  | controls o e =>
      cases b with
      | controls o' e' =>
          simp only [Mismatch.report, toList_controlsFailure] at hchars
          have hbits := List.append_cancel_left hchars
          simp only [List.cons.injEq, bitChar_inj, true_and, List.append_cancel_left_eq] at hbits
          obtain ⟨oa, oe, os, ov⟩ := o
          obtain ⟨ea, ee, es, ev⟩ := e
          simp_all
      | value p q => exact absurd hchars (message_ne o e p q)
  | value p q =>
      cases b with
      | controls o e => exact absurd hchars.symm (message_ne o e p q)
      | value p' q' =>
          simp only [Mismatch.report, toList_valueFailure] at hchars
          have hfields := List.append_cancel_left hchars
          obtain ⟨hout, hrest⟩ :=
            Text.field_inj (stop_notMem_showHex p) (stop_notMem_showHex p') hfields
          obtain ⟨hpredicted, -⟩ := Text.field_inj (stop_notMem_showHex q) (stop_notMem_showHex q')
            (List.append_cancel_left hrest)
          rw [showHex_inj hout, showHex_inj hpredicted]

/-! ## The reports of a transaction -/

def ofControls (x : SingleCycleSignals) : List Mismatch :=
  if ControlsAgree x then [] else [.controls x.state_1.ctl (predictSignals x).controls]

def ofValues (x : SingleCycleSignals) : List Mismatch :=
  if x.state_1.ctl.is_valid = true ∧ ¬ ValueAgrees x then
    [.value x.state_1.data.value (predictSignals x).value]
  else []

/-- The control board hears of a transaction first. -/
def mismatches (x : SingleCycleSignals) : List Mismatch := ofControls x ++ ofValues x

theorem mismatches_eq_nil_iff {x : SingleCycleSignals} : mismatches x = [] ↔ AsPredicted x := by
  rw [mismatches, List.append_eq_nil_iff, AsPredicted]
  apply and_congr
  · rw [ofControls]
    split <;> simp_all
  · rw [ofValues]
    split <;> simp_all

theorem controls_write (b : ControlBits) {t : SingleCycleTransaction} (h : t.good = true) :
    b.write t = .ok (⟨b.m_count.record (ControlBits.verdict t.m_value)⟩,
      (ofControls t.m_value).map Mismatch.report) := by
  have hequal : ((t.m_value.state_1.ctl.is_advance == (predictSignals t.m_value).is_advance) &&
      (t.m_value.state_1.ctl.is_error == (predictSignals t.m_value).is_error) &&
      (t.m_value.state_1.ctl.is_stall == (predictSignals t.m_value).is_stall) &&
      (t.m_value.state_1.ctl.is_valid == (predictSignals t.m_value).is_valid)) =
      decide (ControlsAgree t.m_value) := by
    rw [Bool.eq_iff_iff, decide_eq_true_iff]
    simp only [ControlsAgree, Bool.and_eq_true, beq_iff_eq, and_assoc]
  rw [ControlBits.write, predictControls_of_good h, Basic.value_of_good h]
  simp only [bind, Except.bind, pure, Except.pure, State.controls, hequal]
  by_cases ha : ControlsAgree t.m_value
  · simp only [ha, ControlBits.verdict, ofControls, if_true, decide_true, PassFailCount.record]
    rfl
  · simp only [ha, ControlBits.verdict, ofControls, if_false, decide_false, PassFailCount.record]
    rfl

theorem values_write (b : DataValues) {t : SingleCycleTransaction} (h : t.good = true) :
    b.write t = .ok (⟨b.m_count.record (DataValues.verdict t.m_value)⟩,
      (ofValues t.m_value).map Mismatch.report) := by
  rw [DataValues.write, predictState_of_good h, Basic.value_of_good h]
  cases hv : t.m_value.state_1.ctl.is_valid with
  | false =>
      simp [bind, Except.bind, pure, Except.pure, DataValues.verdict, ofValues, hv,
        PassFailCount.record]
  | true =>
      by_cases ha : ValueAgrees t.m_value
      · have heq : t.m_value.state_1.data.value = (predictSignals t.m_value).value := ha
        simp [bind, Except.bind, pure, Except.pure, DataValues.verdict, ofValues, hv, ha, heq,
          PassFailCount.record]
      · have hne : t.m_value.state_1.data.value ≠ (predictSignals t.m_value).value := ha
        simp [bind, Except.bind, pure, Except.pure, DataValues.verdict, ofValues, hv, ha, hne,
          PassFailCount.record, Mismatch.report]

/-! ## The log of a run -/

theorem write_reports (xs : List SingleCycleSignals) (rs : List Report)
    {t : SingleCycleTransaction} (h : t.good = true) :
    TestBench.write (TestBench.ofSignals xs rs) t =
      .ok (TestBench.ofSignals (xs ++ [t.m_value])
        (rs ++ (mismatches t.m_value).map Mismatch.report)) := by
  have hpairs := ControlBitPairs.write_of_good
    ⟨TestBench.ofCodes (xs.map (controlIndex ·.stimuli.controls))⟩ h
  rw [TestBench.observe_ofCodes (xs.map (controlIndex ·.stimuli.controls))
    (controlIndex t.m_value.stimuli.controls)
    (show (controlCode t.m_value.stimuli.controls).toNat = _ from rfl)] at hpairs
  simp only [TestBench.write, TestBench.ofSignals, TestBench.listen, controls_write _ h,
    values_write _ h, hpairs, Except.map, bind, Except.bind, pure, Except.pure, List.map_append,
    List.map_cons, List.map_nil, TestBench.ofVerdicts_concat, List.append_nil, List.append_assoc,
    mismatches]

/-- The log, whatever the signals. -/
theorem writes_reports (ts : List SingleCycleTransaction) (hgood : ∀ t ∈ ts, t.good = true) :
    TestBench.writes .built ts = .ok (TestBench.ofSignals (ts.map (·.m_value))
      (((ts.map (·.m_value)).flatMap mismatches).map Mismatch.report)) := by
  induction ts using List.reverseRecOn with
  | nil => rfl
  | append_singleton ts t ih =>
      have hold := ih fun u hu => hgood u (List.mem_append_left _ hu)
      rw [TestBench.writes] at hold ⊢
      rw [List.foldlM_append, hold]
      simp only [bind, Except.bind, List.foldlM_cons, List.foldlM_nil,
        write_reports _ _ (hgood t (by simp)), List.map_append, List.flatMap_append, List.map_cons,
        List.map_nil, List.flatMap_cons, List.flatMap_nil, List.append_nil]
      rfl

/-- One report for each failure counted. -/
theorem length_mismatches (xs : List SingleCycleSignals) :
    (xs.flatMap mismatches).length =
      (xs.map ControlBits.verdict).count .fail + (xs.map DataValues.verdict).count .fail := by
  induction xs with
  | nil => rfl
  | cons x xs ih =>
      have hx : (mismatches x).length =
          [ControlBits.verdict x].count .fail + [DataValues.verdict x].count .fail := by
        rw [mismatches, List.length_append, ofControls, ofValues, ControlBits.verdict,
          DataValues.verdict]
        by_cases hc : ControlsAgree x <;> by_cases hv : ValueAgrees x <;>
          cases hvalid : x.state_1.ctl.is_valid <;> simp [hc, hv]
      rw [List.flatMap_cons, List.length_append, ih, hx, List.map_cons, List.map_cons]
      rw [List.count_cons (l := xs.map _), List.count_cons (l := xs.map _), List.count_singleton,
        List.count_singleton]
      omega

/-- Neither counter has wrapped. -/
theorem length_log {xs : List SingleCycleSignals} (h : xs.length < 2 ^ 32) :
    (xs.flatMap mismatches).length =
      (TestBench.ofVerdicts (xs.map ControlBits.verdict)).m_fail.toNat +
        (TestBench.ofVerdicts (xs.map DataValues.verdict)).m_fail.toNat := by
  have hlen : ∀ verdict : SingleCycleSignals → Verdict, (xs.map verdict).length < 2 ^ 32 := by
    intro verdict
    rw [List.length_map]
    exact h
  have hcontrols := TestBench.count_toNat .fail (hlen ControlBits.verdict)
  have hvalues := TestBench.count_toNat .fail (hlen DataValues.verdict)
  rw [length_mismatches, ← hcontrols, ← hvalues]
  rfl

/-! ## The log beside the module that ships -/

/-- No failure is counted and nothing is printed. -/
structure Quiet (bench : TestBench) : Prop where
  controls : ∃ b, bench.m_sb_controls = some b ∧ b.m_count.m_fail = 0
  values : ∃ b, bench.m_sb_values = some b ∧ b.m_count.m_fail = 0
  reports : bench.reports = []

/-- Without mismatches the boards stay quiet. -/
theorem quiet_ofSignals {xs : List SingleCycleSignals} (h : xs.length < 2 ^ 32)
    (hnone : xs.flatMap mismatches = []) : Quiet (TestBench.ofSignals xs []) := by
  have hlog := length_log h
  rw [hnone, List.length_nil, eq_comm, Nat.add_eq_zero_iff] at hlog
  obtain ⟨hcontrols, hvalues⟩ := hlog
  exact ⟨⟨_, rfl, BitVec.eq_of_toNat_eq hcontrols⟩, ⟨_, rfl, BitVec.eq_of_toNat_eq hvalues⟩, rfl⟩

theorem mismatches_of_history {is : List MutInput} {es : List (Run.Edge MutOutput MutInput)}
    (hhist : Run.history SingleCycle.edge SingleCycle.initialised is = .ok es) :
    (es.dropLast.map Monitor.edgeSignals).flatMap mismatches = [] := by
  rw [List.flatMap_eq_nil_iff]
  rintro x hx
  rcases List.mem_map.mp hx with ⟨e, he, rfl⟩
  obtain ⟨-, hspec⟩ := EndToEnd.history_spec hhist e (List.mem_of_mem_dropLast he)
  apply mismatches_eq_nil_iff.mpr
  exact ⟨Oracle.controlsAgree_of_edge hspec, Oracle.valueAgrees_of_edge hspec⟩

/-- Whatever is driven, the boards stay quiet, and the pairs decide the verdict. -/
theorem quiet_of_history {is : List MutInput} {es : List (Run.Edge MutOutput MutInput)}
    (hhist : Run.history SingleCycle.edge SingleCycle.initialised is = .ok es)
    (hlen : is.length < 2 ^ 32) :
    ∃ bench, TestBench.writes .built (es.dropLast.map Monitor.edgeTransaction) = .ok bench ∧
      Quiet bench ∧
      (bench.isPass = true ↔
        ∀ a b : InputControls, [a, b] <:+: is.dropLast.map EndToEnd.inputControls) := by
  obtain ⟨bench, hwrites, hpass⟩ := Program.isPass_iff_covered hhist hlen
  refine ⟨bench, hwrites, ?_, hpass⟩
  have hexact := writes_reports (es.dropLast.map Monitor.edgeTransaction) (by
    rintro t ht
    rcases List.mem_map.mp ht with ⟨e, -, rfl⟩
    rfl)
  have hsignals : (es.dropLast.map Monitor.edgeTransaction).map (·.m_value) =
      es.dropLast.map Monitor.edgeSignals := by
    rw [List.map_map]
    rfl
  have hnone := mismatches_of_history hhist
  rw [hwrites, Except.ok.injEq, hsignals, hnone] at hexact
  rw [hexact]
  refine quiet_ofSignals ?_ hnone
  rw [List.length_map, List.length_dropLast, Run.history_length hhist]
  omega

/-! ## The log beside any module -/

/-- Nothing is printed about transitions that are as predicted, and only then. -/
theorem log_eq_nil_iff {f : ℕ → SingleCycleSignals} {n : ℕ} :
    ((List.range (n - 1)).flatMap fun k => (mismatches (f k)).map Mismatch.report) = [] ↔
      ∀ k, k + 1 < n → AsPredicted (f k) := by
  rw [List.flatMap_eq_nil_iff]
  refine forall_congr' fun k => ?_
  rw [List.mem_range, List.map_eq_nil_iff, mismatches_eq_nil_iff]
  apply imp_congr_left
  omega

/-- **The log is the run's mismatches.** Beside any module the test prints, in the
order of the clocks, one report for each reading that differs, from which both
readings can be read back; as many as the two boards count failures. It passes
exactly when the pairs are covered and nothing was printed. -/
theorem log_exact {σ : Type} (m : ModuleUnderTest σ) (signals : SingleCycleSignals) (s : σ)
    (idle : ℕ) (items : List Request) (clocks : ℕ) (hclocks : clocks ≤ runTime) :
    Function.Injective Mismatch.report ∧
      ((∃ e, drive m.edge (Bench.inputAt (drivenInputs idle items)) s clocks = .error e ∧
          observe m signals buildPhase s idle items clocks = .error e) ∨
        ∃ t controls values, observe m signals buildPhase s idle items clocks = .ok t ∧
          t.m_test_bench.m_sb_controls = some controls ∧
          t.m_test_bench.m_sb_values = some values ∧
          t.m_test_bench.reports = (List.range (clocks - 1)).flatMap (fun k =>
            (mismatches (signalsAt m (drivenInputs idle items) s k)).map Mismatch.report) ∧
          t.m_test_bench.reports.length =
            controls.m_count.m_fail.toNat + values.m_count.m_fail.toNat ∧
          (t.m_test_bench.isPass = true ↔
            Program.Covers (drivenInputs idle items) clocks ∧ t.m_test_bench.reports = [])) := by
  have hlt : clocks < 2 ^ 32 := lt_of_le_of_lt hclocks (by decide)
  refine ⟨report_injective, ?_⟩
  cases hdrive : drive m.edge (Bench.inputAt (drivenInputs idle items)) s clocks with
  | error e =>
      refine Or.inl ⟨e, rfl, ?_⟩
      simp only [observe, run_error hdrive, bind, Except.bind]
  | ok sn =>
      obtain ⟨w, hrun, hsent⟩ := run_transmitted hdrive signals
      obtain ⟨bench, hwrites, hpass⟩ := @isPass_iff σ m (drivenInputs idle items) s clocks hlt
      have hgood : ∀ t ∈ (List.range (clocks - 1)).map fun k =>
          (⟨true, signalsAt m (drivenInputs idle items) s k⟩ : SingleCycleTransaction),
          t.good = true := by
        rintro t ht
        rcases List.mem_map.mp ht with ⟨k, -, rfl⟩
        rfl
      have hbench := (writes_reports _ hgood).symm.trans hwrites
      rw [Except.ok.injEq, List.map_map] at hbench
      subst hbench
      have hreports : ∀ f : ℕ → SingleCycleSignals,
          (((List.range (clocks - 1)).map f).flatMap mismatches).map Mismatch.report =
            (List.range (clocks - 1)).flatMap fun k => (mismatches (f k)).map Mismatch.report := by
        intro f
        rw [List.flatMap_map, List.map_flatMap]
      refine Or.inr ⟨⟨false, _⟩, _, _, ?_, rfl, rfl, hreports _, ?_,
        hpass.trans (and_congr_right' ?_)⟩
      · simp only [observe, buildPhase, hrun, hsent, hwrites, bind, Except.bind, pure,
          Except.pure]
        rfl
      · exact (List.length_map _).trans (length_log (by
          rw [List.length_map, List.length_range]
          omega))
      · rw [← log_eq_nil_iff, ← hreports]
        rfl

/-- A module that takes every input and never moves its outputs. -/
def dead : ModuleUnderTest Unit := ⟨fun s _ => .ok s, fun _ _ => .powerUp⟩

/-- Its advance is missed at every clock that is reported. -/
theorem log_exact_dead :
    ∃ t controls values,
      observe dead .ugly buildPhase () 0 [.reset, .hold] 5 = .ok t ∧
      t.m_test_bench.m_sb_controls = some controls ∧
      t.m_test_bench.m_sb_values = some values ∧
      t.m_test_bench.reports = List.replicate 4
        (Mismatch.controls ⟨false, false, false, false⟩ ⟨true, false, false, false⟩).report ∧
      controls.m_count.m_fail.toNat + values.m_count.m_fail.toNat = 4 ∧
      ¬ t.m_test_bench.isPass = true := by
  obtain ⟨-, hlog⟩ := log_exact dead .ugly () 0 [.reset, .hold] 5 (by decide)
  rcases hlog with ⟨e, hdrive, -⟩ | ⟨t, controls, values, hrun, hcontrols, hvalues, hreports,
    hlength, hpass⟩
  · cases hdrive
  · have hprinted : t.m_test_bench.reports = List.replicate 4
        (Mismatch.controls ⟨false, false, false, false⟩ ⟨true, false, false, false⟩).report :=
      hreports
    rw [hprinted, List.length_replicate] at hlength
    refine ⟨t, controls, values, hrun, hcontrols, hvalues, hprinted, hlength.symm, ?_⟩
    rw [hpass, hprinted]
    rintro ⟨-, hnil⟩
    cases hnil

end PipelineBench.Reports
