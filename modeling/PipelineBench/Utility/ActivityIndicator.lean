import PipelineBench.Foundation.Machine
import PipelineBench.Model.Signals

/-!
# The activity indicator

`utility::activity_indicator_t`: a mark every `m_cycle_size` calls of `tic`,
`m_line_size` marks a line, and the total at the end. What a call writes to
`m_stream` is its answer; a call that throws writes nothing and changes nothing.
-/

namespace PipelineBench.Utility

open Machine

/-- `activity_indicator_t`, less its stream. -/
structure ActivityIndicator where
  m_cycle_iteration : Unsigned
  m_cycle_size : Unsigned
  m_line_tic : Unsigned
  m_line_size : Unsigned
  m_is_complete : Bool
  m_iteration : Unsigned
  m_cycles : Unsigned
  m_tic : Char
  deriving DecidableEq, Repr

/-- A decimal number, as `operator<<` prints an `unsigned`. -/
def showUnsigned (n : Unsigned) : List Char := Nat.toDigits 10 n.toNat

theorem notMem_toDigits {ch : Char} (hch : ch.isDigit = false) (n : ℕ) :
    ch ∉ Nat.toDigits 10 n := by
  intro hmem
  have hdigit := Nat.isDigit_of_mem_toDigits (by decide) (by decide) hmem
  rw [hch] at hdigit
  exact Bool.false_ne_true hdigit

namespace ActivityIndicator

/-- `activity_indicator_t(cycle_per_tic, cycle_per_line)`. -/
def fresh (cycle_per_tic cycle_per_line : Unsigned) : ActivityIndicator where
  m_cycle_iteration := 0
  m_cycle_size := cycle_per_tic
  m_line_tic := 0
  m_line_size := cycle_per_line
  m_is_complete := false
  m_iteration := 0
  m_cycles := 0
  m_tic := '.'

/-- The constructors without sizes. -/
def freshDefault : ActivityIndicator where
  m_cycle_iteration := 0
  m_cycle_size := 1
  m_line_tic := 0
  m_line_size := 72
  m_is_complete := false
  m_iteration := 0
  m_cycles := 0
  m_tic := '.'

theorem freshDefault_eq : freshDefault = fresh 1 72 := rfl

/-- The newline a full line is still owed, and the mark of a new period. -/
def tic (s : ActivityIndicator) : Except Abort (List Char) × ActivityIndicator :=
  if s.m_is_complete then (.error (.logicError "activity_indicator_t: in complete state"), s)
  else
    let isFull := s.m_iteration == s.m_line_size
    let newline := if isFull then ['\n'] else []
    let iteration := if isFull then 0 else s.m_iteration
    let mark := if s.m_cycle_iteration == 0 then [s.m_tic] else []
    let cycle_iteration := s.m_cycle_iteration + 1
    let isPeriod := cycle_iteration == s.m_cycle_size
    (.ok (newline ++ mark),
      { s with
        m_cycle_iteration := if isPeriod then 0 else cycle_iteration
        m_iteration := if isPeriod then iteration + 1 else iteration
        m_cycles := s.m_cycles + 1 })

/-- The text before the number. -/
def totalText : List Char := " Total Cycles: ".toList

def complete (s : ActivityIndicator) : Except Abort (List Char) × ActivityIndicator :=
  if s.m_is_complete then
    (.error (.logicError "activity_indicator_t: why complete twice?"), s)
  else
    let mark := if s.m_iteration < 2 then [] else [s.m_tic]
    (.ok (mark ++ totalText ++ showUnsigned s.m_cycles ++ ['\n']), { s with m_is_complete := true })

def reset (s : ActivityIndicator) : Except Abort (List Char) × ActivityIndicator :=
  if !s.m_is_complete then (.error (.logicError "reset(): not complete."), s)
  else
    (.ok [], { s with m_is_complete := false, m_cycle_iteration := 0, m_iteration := 0 })

/-! ## Calls -/

inductive Call where
  | tic
  | complete
  | reset
  deriving DecidableEq, Repr

def step (s : ActivityIndicator) : Call → Except Abort (List Char) × ActivityIndicator
  | .tic => s.tic
  | .complete => s.complete
  | .reset => s.reset

/-- The text that a list of calls writes. -/
def written (answers : List (Except Abort (List Char))) : List Char :=
  answers.flatMap fun
    | .ok text => text
    | .error _ => []

/-- What a list of calls throws, with the position of each throwing call. -/
def thrown (answers : List (Except Abort (List Char))) : List (Option Abort) :=
  answers.map fun
    | .ok _ => none
    | .error e => some e

theorem written_append (as bs : List (Except Abort (List Char))) :
    written (as ++ bs) = written as ++ written bs := by
  unfold written
  exact List.flatMap_append

end ActivityIndicator

end PipelineBench.Utility
