import PipelineBench.Verify.Detection
import PipelineBench.Verify.LoggedTests

/-!
# What the unit test program prints

A test that fails is thrown as well as logged, so the listing at the end is only
reached without one: beside any module the program prints one of two reports, or
none.
-/

namespace PipelineBench.UnitTest

open EvilTest Spin SelfCheck Detection Logger

/-- The group the test files when it is left. -/
def evilGroup : Group where
  valid := true
  name := "evil"
  description := "random stimulous test."
  test := List.replicate iterations ⟨"(state == info[1].pred)", "test_true", true⟩

/-- The report on the whole test. -/
def wholeReport : Printed where
  size := 1
  listing := [(evilGroup, ⟨100000, 0, 100000⟩)]
  total := ⟨100000, 0, 100000⟩
  results := [(evilGroup, ⟨100000, 0, 100000⟩)]
  outcome := "PASS"

/-- The report when the time is over before the group is ended. -/
def emptyReport : Printed where
  size := 0
  listing := []
  total := ⟨0, 0, 0⟩
  results := []
  outcome := "PASS"

def report (waits clocks : ℕ) : Printed :=
  if clocks ≤ waits + 2 + iterations then emptyReport else wholeReport

/-! ## The listing -/

theorem counts_evilGroup : evilGroup.counts = ⟨100000, 0, 100000⟩ := by
  have hpasses : evilGroup.test.map LoggedTest.pass = List.replicate iterations true := by
    simp only [evilGroup, List.map_replicate]
  have hlength : evilGroup.test.length = iterations := by
    simp only [evilGroup, List.length_replicate]
  obtain ⟨hpass, hfail, hall⟩ := LoggedTests.counts_toNat (g := evilGroup) (by
    rw [hlength]
    decide)
  rw [hpasses, List.count_replicate_self] at hpass
  rw [hpasses, List.count_replicate] at hfail
  rw [hlength] at hall
  rw [GroupCounts.mk.injEq]
  exact ⟨BitVec.eq_of_toNat_eq hpass, BitVec.eq_of_toNat_eq hfail, BitVec.eq_of_toNat_eq hall⟩

theorem output_whole : output ⟨.fresh, [evilGroup]⟩ = .ok wholeReport := by
  have hcounts := counts_evilGroup
  rw [Group.counts, GroupCounts.mk.injEq] at hcounts
  obtain ⟨hpass, hfail, -⟩ := hcounts
  have htotal : Logger.total [evilGroup] = ⟨100000, 0, 100000⟩ := by
    rw [Logger.total, List.foldl_cons, List.foldl_nil, Total.add, hpass, hfail]
    rfl
  simp only [output, htotal, counts_evilGroup, List.map_cons, List.map_nil, List.length_cons,
    List.length_nil]
  rfl

/-- A logger with no group ended prints the empty report, whatever is open. -/
theorem output_empty (g : Group) : output ⟨g, []⟩ = .ok emptyReport := rfl

/-! ## The program -/

/-- What the logger may hold once the simulation has ended. -/
def Ended (waits clocks : ℕ) (logger : Logger) : Prop :=
  if clocks ≤ waits + 2 + iterations then logger.m_results = [] else logger = ⟨.fresh, [evilGroup]⟩

theorem output_of_ended {waits clocks : ℕ} {logger : Logger} (h : Ended waits clocks logger) :
    logger.output = .ok (report waits clocks) := by
  unfold Ended at h
  unfold report
  by_cases hshort : clocks ≤ waits + 2 + iterations
  · rw [if_pos hshort] at h
    obtain ⟨group, results⟩ := logger
    subst h
    rw [if_pos hshort]
    exact output_empty group
  · rw [if_neg hshort] at h
    rw [if_neg hshort, h, output_whole]

variable {σ : Type} {m : ModuleUnderTest σ}

/-- The test itself has filed nothing when it is cut, and one group at its end. -/
theorem logger_of_doTestEvil {rand : ℕ → BitVec 64} {garbage : TestInformation} {s : σ} {n : ℕ}
    {w : Beside σ} (h : Spin.doTestEvil m rand .fresh garbage s .powerUp n = .ok w) :
    w.locals.logger = ⟨⟨true, "evil", "random stimulous test.",
      List.replicate n ⟨"(state == info[1].pred)", "test_true", true⟩⟩, []⟩ := by
  have hlog : Logger.fresh.m_group.valid = false := rfl
  cases hstart : afterResets m s .powerUp with
  | error e =>
      rw [doTestEvil_error_of_resets hlog rand garbage hstart n] at h
      cases h
  | ok s₂ =>
      rcases doTestEvil_eq hlog rand garbage hstart n with
        ⟨e, -, hrun⟩ | ⟨sn, l, -, hl, hrun⟩
      · rw [h] at hrun
        cases hrun
      · rw [h, Except.ok.injEq] at hrun
        rw [hrun]
        exact hl.logger

/-- However the run is cut, nothing but passed tests is filed. -/
theorem ended_of_start {rand : ℕ → BitVec 64} {garbage : TestInformation} {waits clocks : ℕ}
    {s : σ} {logger : Logger}
    (h : start m rand garbage waits clocks .fresh s .powerUp = .ok logger) :
    Ended waits clocks logger := by
  simp only [start, bind, Except.bind, pure, Except.pure] at h
  cases hidle : idle m .powerUp (min clocks waits) s with
  | error e =>
      rw [hidle] at h
      cases h
  | ok s₀ =>
      simp only [hidle] at h
      by_cases hwait : clocks ≤ waits
      · rw [if_pos hwait, Except.ok.injEq] at h
        subst h
        rw [Ended, if_pos (by omega)]
        rfl
      · rw [if_neg hwait] at h
        by_cases hone : clocks = waits + 1
        · rw [if_pos hone, firstReset_ok rfl, Spin.together] at h
          rw [Ended, if_pos (by omega)]
          cases hedge : m.edge s₀ .powerUp with
          | error e =>
              rw [hedge] at h
              cases h
          | ok s₁ =>
              rw [hedge] at h
              cases h
              rfl
        · rw [if_neg hone] at h
          cases hrun : Spin.doTestEvil m rand .fresh garbage s₀ .powerUp
              (min (clocks - (waits + 2)) iterations) with
          | error e =>
              rw [hrun] at h
              cases h
          | ok w =>
              have hlogger := logger_of_doTestEvil hrun
              simp only [hrun] at h
              unfold Ended
              split at h
              next hshort =>
                rw [Except.ok.injEq] at h
                rw [if_pos hshort, ← h, hlogger]
              next hlong =>
                have hall : min (clocks - (waits + 2)) iterations = iterations := by omega
                rw [Except.ok.injEq] at h
                rw [if_neg hlong, ← h, hlogger, hall]
                rfl

/-! ## The shipped module -/

/-- It survives the resets, whatever it held before, and then agrees with the
prediction under any stimuli. -/
theorem mut0_agrees (stim : ℕ → MutStimuli) (out : MutOutput) :
    ∃ out₂, afterResets mut0 out .powerUp = .ok out₂ ∧
      ∀ n, ∃ outn, drive mut0.edge (inputAt stim .powerUp) out₂ n = .ok outn ∧
        Agrees mut0.edge (readModule mut0) (inputAt stim .powerUp) (expectedAt stim) out₂ n := by
  have hheld : MutInput.powerUp.ctl.reset = false := rfl
  obtain ⟨out₁, hfirst, hun₁, hvalid₁⟩ := SingleCycle.edge_reset out hheld
  obtain ⟨out₂, hsecond, hspec⟩ := SingleCycle.edge_spec
    (writeReset .powerUp resetStimuli "EVIL RESET: #1.") hun₁
  refine ⟨out₂, ?_, fun n => ?_⟩
  · show (SingleCycle.edge out .powerUp).bind _ = _
    rw [hfirst]
    exact hsecond
  · have hafter : readModule mut0 out₂ = expectedAt stim 0 := by
      show readBack out₂ = _
      rw [readBack_edge hun₁ hspec]
      exact predictControls_reset hun₁ hvalid₁
    have hstep : ∀ k s₁ s₂, SingleCycle.Unstalled s₁ →
        SingleCycle.edge s₁ (inputAt stim .powerUp k) = .ok s₂ →
        readModule mut0 s₁ = expectedAt stim k → readModule mut0 s₂ = expectedAt stim (k + 1) := by
      intro k s₁ s₂ hun hedge hread
      have hnext := readBack_edge hun (SingleCycle.edgeSpec_of_edge hun hedge)
      rw [stimuliOf_inputAt stim rfl] at hnext
      rw [expectedAt_succ, ← hread]
      exact hnext
    obtain ⟨outn, hdrive, -, -, hagrees⟩ :=
      agrees_of_total SingleCycle.edge_total hspec.is_stall hafter hstep n
    exact ⟨outn, hdrive, hagrees⟩

theorem doTestEvil_mut0 (rand : ℕ → BitVec 64) (garbage : TestInformation) (out : MutOutput)
    (n : ℕ) : ∃ w, Spin.doTestEvil mut0 rand .fresh garbage out .powerUp n = .ok w := by
  have hlog : Logger.fresh.m_group.valid = false := rfl
  obtain ⟨out₂, hstart, hall⟩ := mut0_agrees (stimuliFrom rand) out
  obtain ⟨outn, hdrive, hagrees⟩ := hall n
  rcases doTestEvil_eq hlog rand garbage hstart n with
    ⟨e, hchecked, -⟩ | ⟨sn, l, -, -, hrun⟩
  · rw [checkedDrive_ok_iff.mpr ⟨hdrive, hagrees⟩] at hchecked
    cases hchecked
  · exact ⟨_, hrun⟩

/-- Reset is asserted at power up, so the wait goes by. -/
theorem idle_mut0 (n : ℕ) (out : MutOutput) : ∃ out', idle mut0 .powerUp n out = .ok out' := by
  induction n generalizing out with
  | zero => exact ⟨out, rfl⟩
  | succ n ih =>
      have hheld : MutInput.powerUp.ctl.reset = false := rfl
      obtain ⟨out₁, hedge, -, -⟩ := SingleCycle.edge_reset out hheld
      obtain ⟨out', hrest⟩ := ih out₁
      refine ⟨out', ?_⟩
      rw [idle]
      show (SingleCycle.edge out .powerUp).bind _ = _
      rw [hedge]
      exact hrest

theorem start_mut0 (rand : ℕ → BitVec 64) (garbage : TestInformation) (waits clocks : ℕ)
    (out : MutOutput) :
    ∃ logger, start mut0 rand garbage waits clocks .fresh out .powerUp = .ok logger := by
  obtain ⟨out₀, hidle⟩ := idle_mut0 (min clocks waits) out
  simp only [start, hidle, bind, Except.bind, pure, Except.pure]
  by_cases hwait : clocks ≤ waits
  · exact ⟨_, if_pos hwait⟩
  · rw [if_neg hwait]
    by_cases hone : clocks = waits + 1
    · have hheld : MutInput.powerUp.ctl.reset = false := rfl
      obtain ⟨out₁, hedge, -, -⟩ := SingleCycle.edge_reset out₀ hheld
      have hedge' : mut0.edge out₀ .powerUp = .ok out₁ := hedge
      rw [if_pos hone, firstReset_ok rfl, Spin.together, hedge']
      exact ⟨_, rfl⟩
    · rw [if_neg hone]
      obtain ⟨w, hw⟩ := doTestEvil_mut0 rand garbage out₀ (min (clocks - (waits + 2)) iterations)
      rw [hw]
      by_cases hshort : clocks ≤ waits + 2 + iterations
      · exact ⟨_, if_pos hshort⟩
      · exact ⟨_, if_neg hshort⟩

/-- **The program never prints a failure.** Beside any module it ends with an
exception or returns zero with the outcome PASS, over the 100000 tests if the
run time lasts and over none if it does not. The shipped module is in the second
case, whatever the random stream and the run time. -/
theorem unit_program_outcome (rand : ℕ → BitVec 64) (garbage : TestInformation)
    (waits clocks : ℕ) :
    (∀ {σ : Type} (m : ModuleUnderTest σ) (s : σ),
      (∃ e, scMain m rand garbage waits clocks s = .error e) ∨
        scMain m rand garbage waits clocks s = .ok (report waits clocks, 0)) ∧
    ∀ out, scMain mut0 rand garbage waits clocks out = .ok (report waits clocks, 0) := by
  have hprinted : ∀ {σ : Type} {m : ModuleUnderTest σ} {s : σ} {logger : Logger},
      start m rand garbage waits clocks .fresh s .powerUp = .ok logger →
        scMain m rand garbage waits clocks s = .ok (report waits clocks, 0) := by
    intro σ m s logger hstart
    have houtput := output_of_ended (ended_of_start hstart)
    simp only [scMain, hstart, houtput, bind, Except.bind, pure, Except.pure]
  constructor
  · intro σ m s
    cases hstart : start m rand garbage waits clocks .fresh s .powerUp with
    | error e =>
        refine Or.inl ⟨e, ?_⟩
        simp only [scMain, hstart, bind, Except.bind]
    | ok logger => exact Or.inr (hprinted hstart)
  · intro out
    obtain ⟨logger, hstart⟩ := start_mut0 rand garbage waits clocks out
    exact hprinted hstart

end PipelineBench.UnitTest
