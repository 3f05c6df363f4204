import PipelineBench.Model.Format
import PipelineBench.Model.SingleCycle
import PipelineBench.Unit.Logger

/-!
# The free-running module test

`do_test_evil` of `TEST/EXAMPLE/single_cycle.h`: random stimuli, compared with a
prediction that is fed its own previous predictions only. The thread runs once
at each rising edge, beside `cycle`: it reads the outputs before the edge and
writes the inputs of the next one.
-/

namespace PipelineBench.EvilTest

open PipelineBench.Run PipelineBench.SingleCycle

structure MutState where
  is_advance : Bool
  is_error : Bool
  is_stall : Bool
  is_valid : Bool
  deriving DecidableEq, Repr

/-- `mut_stimuli_t` holds the five control bits. -/
abbrev MutStimuli := InputControls

structure TestInformation where
  /-- expected state at start of cycle -/
  state : MutState
  /-- control signal stimulus -/
  stim : MutStimuli
  /-- predicted state at end of cycle -/
  pred : MutState
  deriving DecidableEq, Repr

def predictControls (state : MutState) (stimuli : MutStimuli) : MutState :=
  let reset := stimuli.reset == false
  let reset_or_flush := reset || stimuli.is_flush
  let advance := !state.is_stall && (!state.is_valid || stimuli.is_advance)
  let error := !reset && (state.is_error || stimuli.is_error)
  let stall := false
  let valid := !reset_or_flush &&
    ((advance && stimuli.is_valid) || (!advance && state.is_valid))
  ⟨advance, error, stall, valid⟩

/-! ## The thread -/

/-- The locals that outlive a wait, and the logger. -/
structure Locals where
  info0 : TestInformation
  info1 : TestInformation
  logger : Logger

def tf (value : Bool) : String := if value then "true" else "false"

/-- The writes of the two resets; the error and data ports are not written. -/
def writeReset (inp : MutInput) (stim : MutStimuli) (string : String) : MutInput :=
  { inp with
    ctl := ⟨stim.reset, stim.is_advance, stim.is_flush, stim.is_valid⟩
    debug := { inp.debug with string := string } }

/-- The writes of an iteration; the data ports are not written. -/
def writeStimulus (inp : MutInput) (stim : MutStimuli) (string : String) : MutInput :=
  { inp with
    ctl := ⟨stim.reset, stim.is_advance, stim.is_flush, stim.is_valid⟩
    debug := { inp.debug with string := string, is_error := stim.is_error } }

/-- Up to the first wait. `info[1]` is not initialised yet. -/
def firstReset (logger : Logger) (garbage : TestInformation) (inp : MutInput) :
    Except Abort (Locals × MutInput) :=
  match logger.beginGroup "evil" "random stimulous test." with
  | .error e => .error e
  | .ok logger =>
      let info0 : TestInformation :=
        { state := ⟨false, false, false, false⟩
          stim := ⟨false, false, false, false, false⟩
          pred := ⟨true, false, false, false⟩ }
      .ok (⟨info0, garbage, logger⟩, writeReset inp info0.stim "EVIL RESET: #1.")

/-- Up to the second wait. -/
def secondReset (l : Locals) (inp : MutInput) : Locals × MutInput :=
  let info1 := l.info0
  let info0 : TestInformation :=
    { state := ⟨true, false, false, false⟩
      stim := ⟨false, false, false, false, false⟩
      pred := ⟨true, false, false, false⟩ }
  (⟨info0, info1, l.logger⟩, writeReset inp info0.stim "EVIL RESET: #2.")

/-- The state read back. The advance is the one captured by the module, as the
combinational one might be recomputed during a delta cycle. -/
def readBack (seen : MutOutput) : MutState :=
  ⟨seen.debug.is_advance, seen.ctl.is_error, seen.ctl.is_stall, seen.ctl.is_valid⟩

def randomStimuli (rand : BitVec 64) : MutStimuli where
  reset := ((rand >>> 0) &&& 0x3f) != 0
  is_advance := ((rand >>> 8) &&& 0x03) == 0
  is_error := ((rand >>> 16) &&& 0x3f) == 0
  is_flush := ((rand >>> 24) &&& 0x0f) == 0
  is_valid := ((rand >>> 32) &&& 0x01) == 0

def debugString (cycle : ℕ) (info : TestInformation) : String :=
  "Debug for cycle " ++ toString cycle ++ ".\n" ++
  "  expected start state A/E/S/V: " ++
    tf info.state.is_advance ++ "/" ++ tf info.state.is_error ++ "/" ++
    tf info.state.is_stall ++ "/" ++ tf info.state.is_valid ++ "\n" ++
  "  stimulus RST/nA/ERR/FLSH/pV:  " ++
    Format.showBit info.stim.reset ++ "/" ++ tf info.stim.is_advance ++ "/" ++
    tf info.stim.is_error ++ "/" ++ tf info.stim.is_flush ++ "/" ++
    tf info.stim.is_valid ++ "\n" ++
  "  expected final state A/E/S/V: " ++
    tf info.pred.is_advance ++ "/" ++ tf info.pred.is_error ++ "/" ++
    tf info.pred.is_stall ++ "/" ++ tf info.pred.is_valid

/-- One iteration of the loop, up to its wait. -/
def iteration (cycle : ℕ) (rand : BitVec 64) (seen : MutOutput) (l : Locals) (inp : MutInput) :
    Except Abort (Locals × MutInput) :=
  if l.info0.state ≠ l.info1.pred then .error (.thrown "(info[0].state != info[1].pred)")
  else
    let state := readBack seen
    let logger := l.logger.testTrue "(state == info[1].pred)" (state == l.info1.pred)
    if state ≠ l.info1.pred then .error (.thrown "We done flocked up.")
    else
      let state0 := l.info0.pred
      let stim := randomStimuli rand
      let pred := predictControls state0 stim
      let info1 := l.info0
      let info0 : TestInformation := ⟨state0, stim, pred⟩
      .ok (⟨info0, info1, logger⟩, writeStimulus inp stim (debugString cycle info0))

/-! ## Beside the module -/

structure World where
  out : MutOutput
  inp : MutInput
  locals : Locals

/-- At one rising edge the module consumes the inputs as they stand, and the
thread sees the outputs as they stand. -/
def together (out : MutOutput) (inp : MutInput) (thread : Except Abort (Locals × MutInput)) :
    Except Abort World :=
  match thread with
  | .error e => .error e
  | .ok (locals, inp') => (edge out inp).map fun out' => ⟨out', inp', locals⟩

/-- The world at the top of iteration `n`. -/
def doTestEvil (rand : ℕ → BitVec 64) (logger : Logger) (garbage : TestInformation)
    (out : MutOutput) (inp : MutInput) : ℕ → Except Abort World
  | 0 =>
      (together out inp (firstReset logger garbage inp)).bind fun w =>
        together w.out w.inp (.ok (secondReset w.locals w.inp))
  | n + 1 =>
      (doTestEvil rand logger garbage out inp n).bind fun w =>
        together w.out w.inp (iteration n (rand n) w.out w.locals w.inp)

/-- What the logger holds once the loop is left. -/
def finish (w : World) : Logger := w.locals.logger.endGroup

/-! ## The prediction follows the module -/

def stimuliOf (inp : MutInput) : MutStimuli :=
  ⟨inp.ctl.reset, inp.ctl.is_advance, inp.debug.is_error, inp.ctl.is_flush, inp.ctl.is_valid⟩

/-- The test's prediction computes what an edge does to the state read back. -/
theorem readBack_edge {out out' : MutOutput} {inp : MutInput} (hun : Unstalled out)
    (h : EdgeSpec out inp out') :
    readBack out' = predictControls (readBack out) (stimuliOf inp) := by
  have hadv := h.captured
  rw [computeAdvance_of_unstalled hun] at hadv
  have hstall : out.ctl.is_stall = false := hun
  have hvalid := h.is_valid
  rw [computeAdvance_of_unstalled hun] at hvalid
  have herr := h.is_error
  rw [readBack, MutState.mk.injEq]
  refine ⟨?_, ?_, h.is_stall, ?_⟩
  · simp [readBack, predictControls, stimuliOf, hstall, hadv]
  · cases hr : inp.ctl.reset <;> simp [readBack, predictControls, stimuliOf, hr, herr]
  · rw [hvalid]
    cases hr : inp.ctl.reset <;> cases hf : inp.ctl.is_flush <;>
      cases hv : out.ctl.is_valid <;> cases ha : inp.ctl.is_advance <;>
      simp [Discards, readBack, predictControls, stimuliOf, hstall, hr, hf, hv, ha]

/-- At the top of an iteration. The prediction of `info[1]` is the state the
thread is about to read, that of `info[0]` is the state one edge later. -/
structure Follows (w : World) : Prop where
  unstalled : Unstalled w.out
  expected : w.locals.info0.state = w.locals.info1.pred
  read : readBack w.out = w.locals.info1.pred
  pending : predictControls (readBack w.out) (stimuliOf w.inp) = w.locals.info0.pred

theorem together_ok {out : MutOutput} (inp : MutInput) (hun : Unstalled out)
    (locals : Locals) (inp' : MutInput) :
    ∃ w, together out inp (.ok (locals, inp')) = .ok w ∧ Unstalled w.out ∧
      readBack w.out = predictControls (readBack out) (stimuliOf inp) ∧
      w.inp = inp' ∧ w.locals = locals := by
  obtain ⟨out', hedge, hspec⟩ := edge_spec inp hun
  refine ⟨⟨out', inp', locals⟩, ?_, hspec.is_stall, readBack_edge hun hspec, rfl, rfl⟩
  rw [together, hedge]
  rfl

/-- One iteration passes its test, drives what it has drawn and restores the
relation. -/
theorem follows_iteration {w : World} (h : Follows w) (cycle : ℕ) (rand : BitVec 64) :
    ∃ w', together w.out w.inp (iteration cycle rand w.out w.locals w.inp) = .ok w' ∧
      Follows w' ∧
      w'.locals.logger = w.locals.logger.testTrue "(state == info[1].pred)" true ∧
      w'.locals.info0.stim = randomStimuli rand ∧ stimuliOf w'.inp = randomStimuli rand := by
  have hiter : iteration cycle rand w.out w.locals w.inp =
      .ok (⟨⟨w.locals.info0.pred, randomStimuli rand,
            predictControls w.locals.info0.pred (randomStimuli rand)⟩, w.locals.info0,
          w.locals.logger.testTrue "(state == info[1].pred)" true⟩,
        writeStimulus w.inp (randomStimuli rand) (debugString cycle
          ⟨w.locals.info0.pred, randomStimuli rand,
            predictControls w.locals.info0.pred (randomStimuli rand)⟩)) := by
    rw [iteration, if_neg (not_not_intro h.expected)]
    simp only [h.read, beq_self_eq_true, ne_eq, not_true_eq_false, if_false]
  rw [hiter]
  obtain ⟨w', htog, hun, hread, hinp, hlocals⟩ := together_ok w.inp h.unstalled
    ⟨⟨w.locals.info0.pred, randomStimuli rand,
        predictControls w.locals.info0.pred (randomStimuli rand)⟩, w.locals.info0,
      w.locals.logger.testTrue "(state == info[1].pred)" true⟩ _
  rw [h.pending] at hread
  refine ⟨w', htog, ⟨hun, ?_, ?_, ?_⟩, ?_, ?_, ?_⟩
  · rw [hlocals]
  · rw [hlocals, hread]
  · rw [hlocals, hread, hinp]
    rfl
  · rw [hlocals]
  · rw [hlocals]
  · rw [hinp]
    rfl

/-- The stimuli of the two resets. -/
def resetStimuli : MutStimuli := ⟨false, false, false, false, false⟩

/-- What both resets predict: ready for a datum. -/
def resetState : MutState := ⟨true, false, false, false⟩

/-- The logger once the group of the test is open. -/
def opened (logger : Logger) : Logger :=
  ⟨⟨true, "evil", "random stimulous test.", []⟩, logger.m_results⟩

theorem firstReset_ok {logger : Logger} (hlog : logger.m_group.valid = false)
    (garbage : TestInformation) (inp : MutInput) :
    firstReset logger garbage inp =
      .ok (⟨⟨⟨false, false, false, false⟩, resetStimuli, resetState⟩, garbage, opened logger⟩,
        writeReset inp resetStimuli "EVIL RESET: #1.") := by
  rw [firstReset, Logger.beginGroup_ok hlog]
  rfl

theorem predictControls_reset {state : MutState} (hstall : state.is_stall = false)
    (hvalid : state.is_valid = false) : predictControls state resetStimuli = resetState := by
  simp [predictControls, resetStimuli, resetState, hstall, hvalid]

/-- The two resets set the relation up, whatever the module held before. -/
theorem follows_start {logger : Logger} (hlog : logger.m_group.valid = false)
    (rand : ℕ → BitVec 64) (garbage : TestInformation) (out : MutOutput) {inp : MutInput}
    (hheld : inp.ctl.reset = false) :
    ∃ w, doTestEvil rand logger garbage out inp 0 = .ok w ∧ Follows w ∧
      w.locals.logger = opened logger := by
  rcases edge_reset out hheld with ⟨out₁, hedge, hun, hvalid⟩
  let w₁ : World := ⟨out₁, writeReset inp resetStimuli "EVIL RESET: #1.",
    ⟨⟨⟨false, false, false, false⟩, resetStimuli, resetState⟩, garbage, opened logger⟩⟩
  have hfirst : together out inp (firstReset logger garbage inp) = .ok w₁ := by
    rw [firstReset_ok hlog, together, hedge]
    rfl
  rcases together_ok w₁.inp hun (secondReset w₁.locals w₁.inp).1
    (secondReset w₁.locals w₁.inp).2 with ⟨w, htog, hunw, hread, hinp, hlocals⟩
  have hafter : readBack w.out = resetState := by
    rw [hread]
    exact predictControls_reset hun hvalid
  refine ⟨w, ?_, ⟨hunw, ?_, ?_, ?_⟩, ?_⟩
  · rw [doTestEvil, hfirst]
    exact htog
  · rw [hlocals]
    rfl
  · rw [hlocals, hafter]
    rfl
  · rw [hlocals, hafter, hinp]
    rfl
  · rw [hlocals]
    rfl

/-- **Free-running prediction agrees with the module.** At the top of every
iteration the expected and the read state are the earlier prediction, so neither
throw is reached; the stimuli that stand are those drawn last; every test logged
so far has passed; and when the loop is left there the group is filed with one
passed test for each iteration. -/
theorem prediction_agrees (rand : ℕ → BitVec 64) (logger : Logger)
    (hlog : logger.m_group.valid = false) (garbage : TestInformation) (out : MutOutput)
    (inp : MutInput) (hheld : inp.ctl.reset = false) (n : ℕ) :
    ∃ w, doTestEvil rand logger garbage out inp n = .ok w ∧
      w.locals.info0.state = w.locals.info1.pred ∧
      readBack w.out = w.locals.info1.pred ∧
      (∀ k, n = k + 1 → w.locals.info0.stim = randomStimuli (rand k) ∧
        stimuliOf w.inp = randomStimuli (rand k)) ∧
      finish w =
        ⟨.fresh, logger.m_results ++ [⟨true, "evil", "random stimulous test.",
          List.replicate n ⟨"(state == info[1].pred)", "test_true", true⟩⟩]⟩ := by
  have hrun : ∃ w, doTestEvil rand logger garbage out inp n = .ok w ∧ Follows w ∧
      (∀ k, n = k + 1 → w.locals.info0.stim = randomStimuli (rand k) ∧
        stimuliOf w.inp = randomStimuli (rand k)) ∧
      w.locals.logger = ⟨⟨true, "evil", "random stimulous test.",
        List.replicate n ⟨"(state == info[1].pred)", "test_true", true⟩⟩, logger.m_results⟩ := by
    induction n with
    | zero =>
        obtain ⟨w, hw, hfol, hlogged⟩ := follows_start hlog rand garbage out hheld
        exact ⟨w, hw, hfol, fun _ hk => absurd hk (Nat.succ_ne_zero _).symm, hlogged⟩
    | succ n ih =>
        obtain ⟨w, hw, hfol, -, hlogged⟩ := ih
        obtain ⟨w', hstep, hfol', hlogged', hstim, hinp⟩ := follows_iteration hfol n (rand n)
        refine ⟨w', ?_, hfol', ?_, ?_⟩
        · rw [doTestEvil, hw]
          exact hstep
        · rintro k hk
          obtain rfl := Nat.succ.inj hk
          exact ⟨hstim, hinp⟩
        · rw [hlogged', hlogged, List.replicate_succ']
          rfl
  obtain ⟨w, hw, hfol, hstim, hlogged⟩ := hrun
  refine ⟨w, hw, hfol.expected, hfol.read, hstim, ?_⟩
  rw [finish, hlogged]
  rfl

/-- A stream that resets the module and makes it take, hold and give up data. -/
def multiples (k : ℕ) : BitVec 64 := BitVec.ofNat 64 (k * 0x9e3779b97f4a7c15)

/-- The whole test on that stream. -/
theorem prediction_agrees_multiples :
    ∃ w, doTestEvil multiples .fresh ⟨⟨false, false, false, false⟩,
        ⟨false, false, false, false, false⟩, ⟨false, false, false, false⟩⟩ initialised .powerUp
        100000 = .ok w ∧
      w.locals.info0.state = w.locals.info1.pred ∧
      readBack w.out = w.locals.info1.pred ∧
      (∀ k, 100000 = k + 1 → w.locals.info0.stim = randomStimuli (multiples k) ∧
        stimuliOf w.inp = randomStimuli (multiples k)) ∧
      finish w =
        ⟨.fresh, Logger.fresh.m_results ++ [⟨true, "evil", "random stimulous test.",
          List.replicate 100000 ⟨"(state == info[1].pred)", "test_true", true⟩⟩]⟩ :=
  prediction_agrees multiples .fresh rfl _ initialised .powerUp rfl 100000

end PipelineBench.EvilTest
