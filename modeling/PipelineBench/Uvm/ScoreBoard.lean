import Mathlib.Data.List.FinRange
import PipelineBench.Foundation.Consecutive
import PipelineBench.Model.Format
import PipelineBench.Uvm.Predictor

/-!
# Score boards

`score_board.h`: the two counters and the three boards that listen to the
monitor. Counters are C++ `unsigned` and wrap.
-/

namespace PipelineBench.ScoreBoard

open PipelineBench.Transaction PipelineBench.Predictor

/-- An error report; it is printed and the run goes on. -/
structure Report where
  id : String
  message : String
  deriving DecidableEq, Repr

/-! ## `counter::pass_fail_count_t` -/

structure PassFailCount where
  m_fail : Unsigned
  m_moot : Unsigned
  m_pass : Unsigned
  deriving DecidableEq, Repr

namespace PassFailCount

def fresh : PassFailCount := ⟨0, 0, 0⟩

def fail (c : PassFailCount) : PassFailCount := { c with m_fail := c.m_fail + 1 }

/-- By intent requires at least one pass; moot observations are ignored. -/
def isPass (c : PassFailCount) : Bool := decide (c.m_pass > 0) && c.m_fail == 0

def moot (c : PassFailCount) : PassFailCount := { c with m_moot := c.m_moot + 1 }

def pass (c : PassFailCount) : PassFailCount := { c with m_pass := c.m_pass + 1 }

def totalObservations (c : PassFailCount) : Unsigned := c.m_fail + c.m_moot + c.m_pass

end PassFailCount

/-! ## `counter::control_bit_pairs_t<N_BITS>` -/

/-- `check_array` is indexed by the bits of two consecutive observations;
`prior_bits` passed the range check of `observe`, which the type records. -/
structure PairTable (N : ℕ) where
  check_array : Fin (2 ^ N) → Fin (2 ^ N) → Unsigned
  prior_bits : Fin (2 ^ N)
  prior_valid : Bool

namespace PairTable

variable {N : ℕ}

def fresh (N : ℕ) : PairTable N := ⟨fun _ _ => 0, ⟨0, Nat.two_pow_pos N⟩, false⟩

/-- The doubly nested loop over `check_array` that every summary uses. -/
def forItems {β : Type} (t : PairTable N) (init : β) (f : β → Unsigned → β) : β :=
  (List.finRange (2 ^ N)).foldl
    (fun acc row => (List.finRange (2 ^ N)).foldl
      (fun acc column => f acc (t.check_array row column)) acc) init

/-- `N_BIT_COMBINATIONS` and `N_PAIRS`. -/
def nBitCombinations (N : ℕ) : Unsigned := (1 : Unsigned) <<< N

def nPairs (N : ℕ) : Unsigned := nBitCombinations N * nBitCombinations N

def coverageObservations (t : PairTable N) : Unsigned :=
  t.forItems 0 fun count item => count + if item == 0 then 0 else 1

def isCoverageComplete (t : PairTable N) : Bool :=
  t.forItems true fun result item => result && decide (item > 0)

/-- `check_array[0][0]`. -/
def firstItem (t : PairTable N) : Unsigned :=
  t.check_array ⟨0, Nat.two_pow_pos N⟩ ⟨0, Nat.two_pow_pos N⟩

/-- `::std::max` and `::std::min` keep their first argument on a tie. -/
def maximumObservation (t : PairTable N) : Unsigned :=
  t.forItems t.firstItem fun count item => if count < item then item else count

def minimumObservation (t : PairTable N) : Unsigned :=
  t.forItems t.firstItem fun count item => if item < count then item else count

def observe (t : PairTable N) (bits : Unsigned) : Except Abort (PairTable N) :=
  if h : bits.toNat < 2 ^ N then
    let bits : Fin (2 ^ N) := ⟨bits.toNat, h⟩
    .ok
      { check_array :=
          if t.prior_valid then
            fun a b =>
              if a = t.prior_bits ∧ b = bits then t.check_array a b + 1 else t.check_array a b
          else t.check_array
        prior_bits := bits
        prior_valid := true }
  else
    .error (.uvmFatal "INVALID_SAMPLE" "Invalid observed control bits value.")

/-- What `report_summary` prints of a table, less the fraction. -/
structure Summary where
  title : String
  completion : String
  observed : Unsigned
  minimus : Unsigned
  maximus : Unsigned
  n_pairs : Unsigned
  deriving DecidableEq, Repr

def reportSummary (title : String) (count : PairTable N) : Summary :=
  let observed := count.coverageObservations
  let incomplete := observed != nPairs N
  { title
    completion := if incomplete then "INCOMPLETE" else "complete"
    observed
    minimus := count.minimumObservation
    maximus := count.maximumObservation
    n_pairs := nPairs N }

end PairTable

/-! ## `data_values_t` -/

structure DataValues where
  m_count : PassFailCount
  deriving DecidableEq, Repr

/-- `std::showbase << std::hex`: zero is printed without a base. -/
def showHex (v : Word) : String :=
  if v = 0 then "0" else "0x" ++ String.ofList (Nat.toDigits 16 v.toNat)

namespace DataValues

def fresh : DataValues := ⟨.fresh⟩

def isPass (b : DataValues) : Bool := b.m_count.isPass

def failure (value_out value_predicted : Word) : Report where
  id := "SCORE_BOARD"
  message :=
    "\n" ++
    "  DATA VALUE OUTPUT TEST FAILED: \n" ++
    "    Observed: " ++ showHex value_out ++ ". \n" ++
    "    Expected: " ++ showHex value_predicted ++ ". \n"

def write (b : DataValues) (item : SingleCycleTransaction) :
    Except Abort (DataValues × List Report) := do
  let state_1 := (← item.value).state_1
  let predicted ← predictState item
  let value_out := state_1.data.value
  let value_predicted := predicted.value
  let m_count :=
    if !state_1.ctl.is_valid then b.m_count.moot
    else if value_out == value_predicted then b.m_count.pass
    else b.m_count.fail
  let reports :=
    if state_1.ctl.is_valid && value_out != value_predicted then
      [failure value_out value_predicted]
    else []
  return (⟨m_count⟩, reports)

end DataValues

/-! ## `control_bits_t` -/

structure ControlBits where
  m_count : PassFailCount
  deriving DecidableEq, Repr

namespace ControlBits

def fresh : ControlBits := ⟨.fresh⟩

def isPass (b : ControlBits) : Bool := b.m_count.isPass

def failure (observed : ControlOut) (expected : Controls) : Report where
  id := "SCORE_BOARD"
  message :=
    "\n" ++
    "  CONTROL OUTPUT VALUE TEST FAILED: \n" ++
    "    Observed [A/E/S/V]: " ++
      Format.showBit observed.is_advance ++ "/" ++
      Format.showBit observed.is_error ++ "/" ++
      Format.showBit observed.is_stall ++ "/" ++
      Format.showBit observed.is_valid ++ ". \n" ++
    "    Expected [A/E/S/V]: " ++
      Format.showBit expected.is_advance ++ "/" ++
      Format.showBit expected.is_error ++ "/" ++
      Format.showBit expected.is_stall ++ "/" ++
      Format.showBit expected.is_valid ++ ". \n"

def write (b : ControlBits) (item : SingleCycleTransaction) :
    Except Abort (ControlBits × List Report) := do
  let expected ← predictControls item
  let observed := (← item.value).state_1.ctl
  let is_equal :=
    (observed.is_advance == expected.is_advance) &&
    (observed.is_error == expected.is_error) &&
    (observed.is_stall == expected.is_stall) &&
    (observed.is_valid == expected.is_valid)
  let m_count := if is_equal then b.m_count.pass else b.m_count.fail
  let reports := if !is_equal then [failure observed expected] else []
  return (⟨m_count⟩, reports)

end ControlBits

/-! ## `control_bit_pairs_t` -/

/-- `N_INPUT_CONTROL_BITS`. -/
abbrev nInputControlBits : ℕ := 5

structure ControlBitPairs where
  m_count : PairTable nInputControlBits

/-- Join bits into one number, first bit highest. -/
def joinBits (bits : List Bool) : Unsigned :=
  bits.foldl (fun acc bit => (acc <<< 1) + (if bit then 1 else 0)) 0

/-- The number the board observes for a control combination. -/
def controlCode (c : InputControls) : Unsigned :=
  joinBits [c.reset, c.is_advance, c.is_error, c.is_flush, c.is_valid]

namespace ControlBitPairs

def fresh : ControlBitPairs := ⟨.fresh nInputControlBits⟩

def isPass (b : ControlBitPairs) : Bool := b.m_count.isCoverageComplete

def write (b : ControlBitPairs) (item : SingleCycleTransaction) :
    Except Abort (ControlBitPairs × List Report) := do
  let stimuli := (← item.value).stimuli
  let bits := controlCode stimuli.controls
  let m_count ← b.m_count.observe bits
  return (⟨m_count⟩, [])

end ControlBitPairs

/-! ## Verdicts

A write to a pass/fail board calls one of the three counting methods. Which one
is a function of the signals alone. -/

inductive Verdict where
  | fail
  | moot
  | pass
  deriving DecidableEq, Repr

def PassFailCount.record (c : PassFailCount) : Verdict → PassFailCount
  | .fail => c.fail
  | .moot => c.moot
  | .pass => c.pass

/-- The observed control outputs are the predicted ones. -/
def ControlsAgree (x : SingleCycleSignals) : Prop :=
  x.state_1.ctl.is_advance = (predictSignals x).is_advance ∧
  x.state_1.ctl.is_error = (predictSignals x).is_error ∧
  x.state_1.ctl.is_stall = (predictSignals x).is_stall ∧
  x.state_1.ctl.is_valid = (predictSignals x).is_valid

/-- The observed data value is the predicted one. -/
def ValueAgrees (x : SingleCycleSignals) : Prop :=
  x.state_1.data.value = (predictSignals x).value

instance (x : SingleCycleSignals) : Decidable (ControlsAgree x) := by
  unfold ControlsAgree; infer_instance

instance (x : SingleCycleSignals) : Decidable (ValueAgrees x) := by
  unfold ValueAgrees; infer_instance

def ControlBits.verdict (x : SingleCycleSignals) : Verdict :=
  if ControlsAgree x then .pass else .fail

def DataValues.verdict (x : SingleCycleSignals) : Verdict :=
  if x.state_1.ctl.is_valid = false then .moot
  else if ValueAgrees x then .pass
  else .fail

theorem PassFailCount.m_fail_record (c : PassFailCount) (v : Verdict) :
    (c.record v).m_fail = c.m_fail ↔ v ≠ .fail := by
  cases v with
  | fail => simp [record, fail]
  | moot => simp [record, moot]
  | pass => simp [record, pass]

theorem ControlBits.verdict_ne_fail {x : SingleCycleSignals} :
    verdict x ≠ .fail ↔ ControlsAgree x := by
  by_cases h : ControlsAgree x <;> simp [verdict, h]

theorem DataValues.verdict_ne_fail {x : SingleCycleSignals} :
    verdict x ≠ .fail ↔ (x.state_1.ctl.is_valid = true → ValueAgrees x) := by
  cases hv : x.state_1.ctl.is_valid <;> by_cases h : ValueAgrees x <;> simp [verdict, hv, h]

/-- A report is made exactly when a failure is counted. -/
theorem ControlBits.write_of_good (b : ControlBits) {t : SingleCycleTransaction}
    (h : t.good = true) :
    ∃ reports, b.write t = .ok (⟨b.m_count.record (verdict t.m_value)⟩, reports) ∧
      (reports = [] ↔ verdict t.m_value ≠ .fail) := by
  rw [write, predictControls_of_good h, Basic.value_of_good h]
  by_cases ha : ControlsAgree t.m_value
  · refine ⟨[], ?_, by simp [verdict, ha]⟩
    obtain ⟨h1, h2, h3, h4⟩ := ha
    simp [bind, Except.bind, pure, Except.pure, State.controls, verdict, ControlsAgree,
      h1, h2, h3, h4, PassFailCount.record]
  · refine ⟨[failure t.m_value.state_1.ctl (predictSignals t.m_value).controls], ?_,
      by simp [verdict, ha]⟩
    have hne : ((t.m_value.state_1.ctl.is_advance == (predictSignals t.m_value).is_advance) &&
        (t.m_value.state_1.ctl.is_error == (predictSignals t.m_value).is_error) &&
        (t.m_value.state_1.ctl.is_stall == (predictSignals t.m_value).is_stall) &&
        (t.m_value.state_1.ctl.is_valid == (predictSignals t.m_value).is_valid)) = false := by
      rw [← Bool.not_eq_true]
      intro hall
      simp only [Bool.and_eq_true, beq_iff_eq] at hall
      exact ha ⟨hall.1.1.1, hall.1.1.2, hall.1.2, hall.2⟩
    simp only [bind, Except.bind, pure, Except.pure, State.controls, verdict, if_neg ha, hne,
      PassFailCount.record]
    rfl

theorem DataValues.write_of_good (b : DataValues) {t : SingleCycleTransaction}
    (h : t.good = true) :
    ∃ reports, b.write t = .ok (⟨b.m_count.record (verdict t.m_value)⟩, reports) ∧
      (reports = [] ↔ verdict t.m_value ≠ .fail) := by
  rw [write, predictState_of_good h, Basic.value_of_good h]
  cases hv : t.m_value.state_1.ctl.is_valid with
  | false =>
      refine ⟨[], ?_, by simp [verdict, hv]⟩
      simp [bind, Except.bind, pure, Except.pure, verdict, hv, PassFailCount.record]
  | true =>
      by_cases ha : ValueAgrees t.m_value
      · refine ⟨[], ?_, by simp [verdict, hv, ha]⟩
        rw [verdict, if_neg (by simp [hv]), if_pos ha]
        rw [ValueAgrees] at ha
        simp [bind, Except.bind, pure, Except.pure, hv, ha, PassFailCount.record]
      · refine ⟨[failure t.m_value.state_1.data.value (predictSignals t.m_value).value], ?_,
          by simp [verdict, hv, ha]⟩
        rw [verdict, if_neg (by simp [hv]), if_neg ha]
        rw [ValueAgrees] at ha
        simp [bind, Except.bind, pure, Except.pure, hv, ha, PassFailCount.record]

/-! ## Control codes -/

/-- The combination packed in a five-bit code. -/
def controlsOf (code : Fin (2 ^ nInputControlBits)) : InputControls :=
  ⟨code.val.testBit 4, code.val.testBit 3, code.val.testBit 2, code.val.testBit 1,
    code.val.testBit 0⟩

theorem controlCode_lt (c : InputControls) : (controlCode c).toNat < 2 ^ nInputControlBits := by
  obtain ⟨r, a, e, f, v⟩ := c
  cases r <;> cases a <;> cases e <;> cases f <;> cases v <;> decide

/-- The index under which the pair table files a control combination. -/
def controlIndex (c : InputControls) : Fin (2 ^ nInputControlBits) :=
  ⟨(controlCode c).toNat, controlCode_lt c⟩

@[simp] theorem controlsOf_controlIndex (c : InputControls) : controlsOf (controlIndex c) = c := by
  obtain ⟨r, a, e, f, v⟩ := c
  cases r <;> cases a <;> cases e <;> cases f <;> cases v <;> decide

@[simp] theorem controlIndex_controlsOf :
    ∀ code : Fin (2 ^ nInputControlBits), controlIndex (controlsOf code) = code := by
  decide

theorem ControlBitPairs.write_of_good (b : ControlBitPairs) {t : SingleCycleTransaction}
    (h : t.good = true) :
    b.write t = (b.m_count.observe (controlCode t.m_value.stimuli.controls)).map (⟨·⟩, []) := by
  rw [write, Basic.value_of_good h]
  simp only [bind, Except.bind, pure, Except.pure]
  cases b.m_count.observe (controlCode t.m_value.stimuli.controls) <;> rfl

end PipelineBench.ScoreBoard
