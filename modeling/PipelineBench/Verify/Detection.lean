import PipelineBench.Foundation.SelfCheck
import PipelineBench.Unit.Spin

/-!
# What the free-running test detects

The test writes stimuli that depend on the random stream alone, so beside any
module it is a self-checking run: the inputs and the expected readings are known
before the module has answered anything.
-/

namespace PipelineBench.Detection

open EvilTest Spin SelfCheck

variable {σ : Type} (m : ModuleUnderTest σ)

/-! ## The stimuli and the predictions -/

/-- `info[0]` at the top of an iteration, from the stimuli alone. -/
def infoAt (stim : ℕ → MutStimuli) : ℕ → TestInformation
  | 0 => ⟨resetState, resetStimuli, resetState⟩
  | n + 1 =>
      let state0 := (infoAt stim n).pred
      ⟨state0, stim n, predictControls state0 (stim n)⟩

/-- The inputs that stand at the top of an iteration. -/
def inputAt (stim : ℕ → MutStimuli) (inp : MutInput) : ℕ → MutInput
  | 0 =>
      writeReset (writeReset inp resetStimuli "EVIL RESET: #1.") resetStimuli "EVIL RESET: #2."
  | n + 1 =>
      writeStimulus (inputAt stim inp n) (stim n) (debugString n (infoAt stim (n + 1)))

/-- The state an iteration expects to read back. -/
def expectedAt (stim : ℕ → MutStimuli) (n : ℕ) : MutState := (infoAt stim n).state

/-- The stimuli that stand at the top of an iteration. -/
def standing (stim : ℕ → MutStimuli) : ℕ → MutStimuli
  | 0 => resetStimuli
  | n + 1 => stim n

def stimuliFrom (rand : ℕ → BitVec 64) (n : ℕ) : MutStimuli := randomStimuli (rand n)

/-- What the test reads back of the module. -/
def readModule (s : σ) : MutState := readBack (m.outputs s)

/-- The two edges before the loop. -/
def afterResets (s : σ) (inp : MutInput) : Except Abort σ :=
  (m.edge s inp).bind fun s => m.edge s (writeReset inp resetStimuli "EVIL RESET: #1.")

theorem expectedAt_succ (stim : ℕ → MutStimuli) (n : ℕ) :
    expectedAt stim (n + 1) = predictControls (expectedAt stim n) (standing stim n) := by
  cases n with
  | zero => exact (predictControls_reset rfl rfl).symm
  | succ n => rfl

/-- The stimuli that stand are those the module is given. -/
theorem stimuliOf_inputAt (stim : ℕ → MutStimuli) {inp : MutInput}
    (hclean : inp.debug.is_error = false) (n : ℕ) :
    stimuliOf (inputAt stim inp n) = standing stim n := by
  cases n with
  | zero => exact congrArg (InputControls.mk false false · false false) hclean
  | succ n => rfl

/-! ## The thread is a self-checking run -/

/-- The locals at the top of an iteration in which no throw was reached. -/
structure AtIteration (stim : ℕ → MutStimuli) (logger : Logger) (l : Locals) (n : ℕ) : Prop where
  info0 : l.info0 = infoAt stim n
  info1 : l.info1.pred = expectedAt stim n
  logger : l.logger = ⟨⟨true, "evil", "random stimulous test.",
    List.replicate n ⟨"(state == info[1].pred)", "test_true", true⟩⟩, logger.m_results⟩

variable {m}

/-- One iteration either stops at the reading or writes the next inputs. -/
theorem iteration_eq {rand : ℕ → BitVec 64} {logger : Logger} {l : Locals} {n : ℕ}
    (h : AtIteration (stimuliFrom rand) logger l n) (inp : MutInput) (seen : MutOutput) :
    (readBack seen ≠ expectedAt (stimuliFrom rand) n ∧
      iteration n (rand n) seen l (inputAt (stimuliFrom rand) inp n) =
        .error (.thrown "We done flocked up.")) ∨
    (readBack seen = expectedAt (stimuliFrom rand) n ∧
      ∃ l', iteration n (rand n) seen l (inputAt (stimuliFrom rand) inp n) =
          .ok (l', inputAt (stimuliFrom rand) inp (n + 1)) ∧
        AtIteration (stimuliFrom rand) logger l' (n + 1)) := by
  have hexpected : l.info0.state = l.info1.pred := by
    rw [h.info0, h.info1]
    rfl
  by_cases hread : readBack seen = expectedAt (stimuliFrom rand) n
  · refine Or.inr ⟨hread, ⟨infoAt (stimuliFrom rand) (n + 1), l.info0,
      l.logger.testTrue "(state == info[1].pred)" true⟩, ?_, ?_⟩
    · rw [iteration, if_neg (not_not_intro hexpected)]
      simp only [h.info1, h.info0, hread, beq_self_eq_true, ne_eq, not_true_eq_false, if_false]
      rfl
    · refine ⟨rfl, ?_, ?_⟩
      · rw [h.info0]
        rfl
      · rw [h.logger, List.replicate_succ']
        rfl
  · refine Or.inl ⟨hread, ?_⟩
    rw [iteration, if_neg (not_not_intro hexpected)]
    simp only [h.info1, ne_eq, hread, not_false_eq_true, if_true]

/-- The two resets, beside a module that survives them. -/
theorem doTestEvil_zero {logger : Logger} (hlog : logger.m_group.valid = false)
    (rand : ℕ → BitVec 64) (garbage : TestInformation) (s : σ) (inp : MutInput) :
    (∃ e, afterResets m s inp = .error e ∧
      Spin.doTestEvil m rand logger garbage s inp 0 = .error e) ∨
    ∃ s₂ l, afterResets m s inp = .ok s₂ ∧ AtIteration (stimuliFrom rand) logger l 0 ∧
      Spin.doTestEvil m rand logger garbage s inp 0 =
        .ok ⟨s₂, inputAt (stimuliFrom rand) inp 0, l⟩ := by
  rw [Spin.doTestEvil, firstReset_ok hlog]
  simp only [afterResets, Spin.together, Except.bind]
  cases hfirst : m.edge s inp with
  | error e => exact Or.inl ⟨e, rfl, rfl⟩
  | ok s₁ =>
      simp only [Except.map]
      cases hsecond : m.edge s₁ (writeReset inp resetStimuli "EVIL RESET: #1.") with
      | error e => exact Or.inl ⟨e, rfl, rfl⟩
      | ok s₂ => exact Or.inr ⟨s₂, _, rfl, ⟨rfl, rfl, rfl⟩, rfl⟩

/-- An exception at the resets is the end of the test. -/
theorem doTestEvil_error_of_resets {logger : Logger} (hlog : logger.m_group.valid = false)
    (rand : ℕ → BitVec 64) (garbage : TestInformation) {s : σ} {inp : MutInput} {e : Abort}
    (hstart : afterResets m s inp = .error e) (n : ℕ) :
    Spin.doTestEvil m rand logger garbage s inp n = .error e := by
  induction n with
  | zero =>
      rcases doTestEvil_zero (m := m) hlog rand garbage s inp with
        ⟨e', herr, hrun⟩ | ⟨s₂, l, hok, -, -⟩
      · rw [hstart, Except.error.injEq] at herr
        rw [hrun, herr]
      · rw [hstart] at hok
        cases hok
  | succ n ih =>
      rw [Spin.doTestEvil, ih]
      rfl

/-- The loop beside a module is the checked run of that module. -/
theorem doTestEvil_eq {logger : Logger} (hlog : logger.m_group.valid = false)
    (rand : ℕ → BitVec 64) (garbage : TestInformation) {s s₂ : σ} {inp : MutInput}
    (hstart : afterResets m s inp = .ok s₂) (n : ℕ) :
    (∃ e, checkedDrive m.edge (readModule m) (inputAt (stimuliFrom rand) inp)
        (expectedAt (stimuliFrom rand)) (.thrown "We done flocked up.") s₂ n = .error e ∧
      Spin.doTestEvil m rand logger garbage s inp n = .error e) ∨
    ∃ sn l, checkedDrive m.edge (readModule m) (inputAt (stimuliFrom rand) inp)
        (expectedAt (stimuliFrom rand)) (.thrown "We done flocked up.") s₂ n = .ok sn ∧
      AtIteration (stimuliFrom rand) logger l n ∧
      Spin.doTestEvil m rand logger garbage s inp n =
        .ok ⟨sn, inputAt (stimuliFrom rand) inp n, l⟩ := by
  induction n with
  | zero =>
      rcases doTestEvil_zero (m := m) hlog rand garbage s inp with
        ⟨e, herr, -⟩ | ⟨s₂', l, hok, hl, hrun⟩
      · rw [hstart] at herr
        cases herr
      · rw [hstart, Except.ok.injEq] at hok
        subst hok
        exact Or.inr ⟨s₂, l, rfl, hl, hrun⟩
  | succ n ih =>
      rcases ih with ⟨e, hchecked, hrun⟩ | ⟨sn, l, hchecked, hl, hrun⟩
      · refine Or.inl ⟨e, ?_, ?_⟩
        · rw [checkedDrive, hchecked]
          rfl
        · rw [Spin.doTestEvil, hrun]
          rfl
      · rw [checkedDrive, hchecked, Spin.doTestEvil, hrun]
        simp only [Except.bind]
        rcases iteration_eq hl inp (m.outputs sn) with
          ⟨hread, hiter⟩ | ⟨hread, l', hiter, hl'⟩
        · -- the reading differs: the thread throws, whatever the module does
          refine Or.inl ⟨_, if_neg hread, ?_⟩
          rw [hiter]
          rfl
        · have hgood : readModule m sn = expectedAt (stimuliFrom rand) n := hread
          rw [if_pos hgood, hiter]
          simp only [Spin.together]
          cases m.edge sn (inputAt (stimuliFrom rand) inp n) with
          | error e => exact Or.inl ⟨e, rfl, rfl⟩
          | ok s' => exact Or.inr ⟨s', l', rfl, hl', rfl⟩

/-! ## What ends the test -/

/-- **The verdict beside any module.** The test gets through `n` iterations
exactly when the module takes every input and every reading is the predicted
one, and it then files one passed test an iteration. Otherwise it ends at the
first difference with its own message, or with the exception of the module. -/
theorem evil_verdict (m : ModuleUnderTest σ) (rand : ℕ → BitVec 64) (garbage : TestInformation)
    (logger : Logger) (hlog : logger.m_group.valid = false) (s : σ) (inp : MutInput) (n : ℕ) :
    (∃ e, afterResets m s inp = .error e ∧
      Spin.doTestEvil m rand logger garbage s inp n = .error e) ∨
    ∃ s₂, afterResets m s inp = .ok s₂ ∧
      ((∃ sn w, drive m.edge (inputAt (stimuliFrom rand) inp) s₂ n = .ok sn ∧
          Agrees m.edge (readModule m) (inputAt (stimuliFrom rand) inp)
            (expectedAt (stimuliFrom rand)) s₂ n ∧
          Spin.doTestEvil m rand logger garbage s inp n = .ok w ∧ w.state = sn ∧
          w.locals.logger.endGroup =
            ⟨.fresh, logger.m_results ++ [⟨true, "evil", "random stimulous test.",
              List.replicate n ⟨"(state == info[1].pred)", "test_true", true⟩⟩]⟩) ∨
        ∃ k < n, ∃ sk, drive m.edge (inputAt (stimuliFrom rand) inp) s₂ k = .ok sk ∧
          Agrees m.edge (readModule m) (inputAt (stimuliFrom rand) inp)
            (expectedAt (stimuliFrom rand)) s₂ k ∧
          ((readModule m sk ≠ expectedAt (stimuliFrom rand) k ∧
              Spin.doTestEvil m rand logger garbage s inp n =
                .error (.thrown "We done flocked up.")) ∨
            (readModule m sk = expectedAt (stimuliFrom rand) k ∧
              ∃ e, m.edge sk (inputAt (stimuliFrom rand) inp k) = .error e ∧
                Spin.doTestEvil m rand logger garbage s inp n = .error e))) := by
  cases hstart : afterResets m s inp with
  | error e =>
      exact Or.inl ⟨e, rfl, doTestEvil_error_of_resets hlog rand garbage hstart n⟩
  | ok s₂ =>
      refine Or.inr ⟨s₂, rfl, ?_⟩
      rcases doTestEvil_eq hlog rand garbage hstart n with
        ⟨e, hchecked, hrun⟩ | ⟨sn, l, hchecked, hl, hrun⟩
      · obtain ⟨k, hk, sk, hsk, hagrees, hend⟩ := checkedDrive_error hchecked
        refine Or.inr ⟨k, hk, sk, hsk, hagrees, ?_⟩
        rcases hend with ⟨hread, rfl⟩ | ⟨hread, hedge⟩
        · exact Or.inl ⟨hread, hrun⟩
        · exact Or.inr ⟨hread, e, hedge, hrun⟩
      · obtain ⟨hdrive, hagrees⟩ := checkedDrive_ok_iff.mp hchecked
        refine Or.inl ⟨sn, _, hdrive, hagrees, hrun, rfl, ?_⟩
        rw [hl.logger]
        rfl

/-- The module that ships, on a stream with traffic. -/
theorem evil_verdict_mut0 :
    (∃ e, afterResets mut0 SingleCycle.initialised .powerUp = .error e ∧
      Spin.doTestEvil mut0 multiples .fresh ⟨resetState, resetStimuli, resetState⟩
        SingleCycle.initialised .powerUp 100000 = .error e) ∨
    ∃ s₂, afterResets mut0 SingleCycle.initialised .powerUp = .ok s₂ ∧
      ((∃ sn w, drive mut0.edge (inputAt (stimuliFrom multiples) .powerUp) s₂ 100000 = .ok sn ∧
          Agrees mut0.edge (readModule mut0) (inputAt (stimuliFrom multiples) .powerUp)
            (expectedAt (stimuliFrom multiples)) s₂ 100000 ∧
          Spin.doTestEvil mut0 multiples .fresh ⟨resetState, resetStimuli, resetState⟩
            SingleCycle.initialised .powerUp 100000 = .ok w ∧ w.state = sn ∧
          w.locals.logger.endGroup =
            ⟨.fresh, Logger.fresh.m_results ++ [⟨true, "evil", "random stimulous test.",
              List.replicate 100000 ⟨"(state == info[1].pred)", "test_true", true⟩⟩]⟩) ∨
        ∃ k < 100000, ∃ sk,
          drive mut0.edge (inputAt (stimuliFrom multiples) .powerUp) s₂ k = .ok sk ∧
          Agrees mut0.edge (readModule mut0) (inputAt (stimuliFrom multiples) .powerUp)
            (expectedAt (stimuliFrom multiples)) s₂ k ∧
          ((readModule mut0 sk ≠ expectedAt (stimuliFrom multiples) k ∧
              Spin.doTestEvil mut0 multiples .fresh ⟨resetState, resetStimuli, resetState⟩
                SingleCycle.initialised .powerUp 100000 =
                .error (.thrown "We done flocked up.")) ∨
            (readModule mut0 sk = expectedAt (stimuliFrom multiples) k ∧
              ∃ e, mut0.edge sk (inputAt (stimuliFrom multiples) .powerUp k) = .error e ∧
                Spin.doTestEvil mut0 multiples .fresh ⟨resetState, resetStimuli, resetState⟩
                  SingleCycle.initialised .powerUp 100000 = .error e))) :=
  evil_verdict mut0 multiples ⟨resetState, resetStimuli, resetState⟩ .fresh rfl
    SingleCycle.initialised .powerUp 100000

/-! ## Every defect in the readings is within reach -/

/-- A random word that gives the stimuli. -/
def wordFor (a : MutStimuli) : BitVec 64 :=
  (if a.reset then 0x000000001 else 0) ||| (if a.is_advance then 0 else 0x000000100) |||
    (if a.is_error then 0 else 0x000010000) ||| (if a.is_flush then 0 else 0x001000000) |||
    (if a.is_valid then 0 else 0x100000000)

theorem randomStimuli_wordFor (a : MutStimuli) : randomStimuli (wordFor a) = a := by
  obtain ⟨reset, is_advance, is_error, is_flush, is_valid⟩ := a
  revert reset is_advance is_error is_flush is_valid
  decide

/-- **The test is complete for the control outputs as it reads them**, the advance
from the debug port. It gets through `n + 1` iterations whatever the random stream
exactly when the module comes out of the resets in the reset state and then, under
every sequence of stimuli, takes each input and makes the transition of
`predict_controls` between two readings. -/
theorem evil_complete (m : ModuleUnderTest σ) (garbage : TestInformation)
    (logger : Logger) (hlog : logger.m_group.valid = false) (s s₂ : σ) (inp : MutInput)
    (hstart : afterResets m s inp = .ok s₂) (n : ℕ) :
    (∀ rand, ∃ w, Spin.doTestEvil m rand logger garbage s inp (n + 1) = .ok w) ↔
      readModule m s₂ = resetState ∧ ∀ stim : ℕ → MutStimuli,
        (∀ k < n, ∃ sk sk', drive m.edge (inputAt stim inp) s₂ k = .ok sk ∧
          m.edge sk (inputAt stim inp k) = .ok sk' ∧
          readModule m sk' = predictControls (readModule m sk) (standing stim k)) ∧
        ∃ sn, drive m.edge (inputAt stim inp) s₂ (n + 1) = .ok sn := by
  have hstream : ∀ rand, (∃ w, Spin.doTestEvil m rand logger garbage s inp (n + 1) = .ok w) ↔
      Agrees m.edge (readModule m) (inputAt (stimuliFrom rand) inp)
          (expectedAt (stimuliFrom rand)) s₂ (n + 1) ∧
        ∃ sn, drive m.edge (inputAt (stimuliFrom rand) inp) s₂ (n + 1) = .ok sn := by
    intro rand
    constructor
    · rintro ⟨w, hw⟩
      rcases doTestEvil_eq hlog rand garbage hstart (n + 1) with
        ⟨e, -, hrun⟩ | ⟨sn, l, hchecked, -, -⟩
      · rw [hw] at hrun
        cases hrun
      · obtain ⟨hdrive, hagrees⟩ := checkedDrive_ok_iff.mp hchecked
        exact ⟨hagrees, sn, hdrive⟩
    · rintro ⟨hagrees, sn, hdrive⟩
      rcases doTestEvil_eq hlog rand garbage hstart (n + 1) with
        ⟨e, hchecked, -⟩ | ⟨sn', l, -, -, hrun⟩
      · rw [checkedDrive_ok_iff.mpr ⟨hdrive, hagrees⟩] at hchecked
        cases hchecked
      · exact ⟨_, hrun⟩
  have hsteps : ∀ stim : ℕ → MutStimuli,
      Agrees m.edge (readModule m) (inputAt stim inp) (expectedAt stim) s₂ (n + 1) ↔
        readModule m s₂ = resetState ∧ ∀ k < n, ∃ sk sk',
          drive m.edge (inputAt stim inp) s₂ k = .ok sk ∧
          m.edge sk (inputAt stim inp k) = .ok sk' ∧
          readModule m sk' = predictControls (readModule m sk) (standing stim k) :=
    fun stim => agrees_succ_iff_steps (expectedAt_succ stim)
  constructor
  · intro h
    refine ⟨?_, fun stim => ?_⟩
    · exact ((hsteps _).mp ((hstream fun _ => 0).mp (h _)).1).1
    · -- a stream that gives these stimuli
      have hstim : stimuliFrom (fun k => wordFor (stim k)) = stim := by
        funext k
        exact randomStimuli_wordFor (stim k)
      obtain ⟨hagrees, hdrive⟩ := (hstream fun k => wordFor (stim k)).mp (h _)
      rw [hstim] at hagrees hdrive
      exact ⟨((hsteps stim).mp hagrees).2, hdrive⟩
  · rintro ⟨hreset, h⟩ rand
    obtain ⟨hall, hdrive⟩ := h (stimuliFrom rand)
    exact (hstream rand).mpr ⟨(hsteps _).mpr ⟨hreset, hall⟩, hdrive⟩

theorem evil_complete_mut0 :
    (∀ rand, ∃ w, Spin.doTestEvil mut0 rand .fresh ⟨resetState, resetStimuli, resetState⟩
        SingleCycle.initialised .powerUp (99999 + 1) = .ok w) ↔
      readModule mut0 { SingleCycle.initialised with
          debug := ⟨0, 0, true, "RESET: EVIL RESET: #1."⟩ } = resetState ∧
        ∀ stim : ℕ → MutStimuli,
        (∀ k < 99999, ∃ sk sk', drive mut0.edge (inputAt stim .powerUp)
            { SingleCycle.initialised with debug := ⟨0, 0, true, "RESET: EVIL RESET: #1."⟩ } k =
              .ok sk ∧
          mut0.edge sk (inputAt stim .powerUp k) = .ok sk' ∧
          readModule mut0 sk' = predictControls (readModule mut0 sk) (standing stim k)) ∧
        ∃ sn, drive mut0.edge (inputAt stim .powerUp)
          { SingleCycle.initialised with debug := ⟨0, 0, true, "RESET: EVIL RESET: #1."⟩ }
          (99999 + 1) = .ok sn :=
  evil_complete mut0 _ .fresh rfl SingleCycle.initialised _ .powerUp (by decide) 99999

end PipelineBench.Detection
