import PipelineBench.Foundation.Comparison
import PipelineBench.Model.Signals

/-!
# Instructions between the stages

`model::i_raw_t` and `model::i_decoded_t`, the structures that pass through the
signals between pipeline stages, with the comparisons the signals rely on. The
first has the one the compiler defaults, member by member; the second its own.
-/

namespace PipelineBench

open Comparison

/-- Prefetch to decoder. -/
@[ext] structure IRaw where
  i_binary : Word
  i_number : Word
  deriving DecidableEq, Repr

/-- `operator<=>(i_raw_t const &) const = default`, and the `operator==` that
comes with it. -/
def IRaw.spaceship (this that : IRaw) : PartialOrdering :=
  (ofKeys this.i_binary.toNat that.i_binary.toNat).andThen
    (ofKeys this.i_number.toNat that.i_number.toNat)

def IRaw.equal (this that : IRaw) : Bool :=
  this.i_binary == that.i_binary && this.i_number == that.i_number

/-- Decoder to register-read, with the widths of its bit fields. -/
structure IDecoded where
  unit : BitVec 3
  function : BitVec 3
  rS_rT : BitVec 5
  rA : BitVec 5
  rB_rU : BitVec 5
  use_rS : BitVec 2
  use_rA : BitVec 2
  use_rB : BitVec 2
  use_cy : BitVec 2
  imm0 : BitVec 8
  imm1 : BitVec 32
  deriving DecidableEq, Repr

/-- `unit_t::system`, the only functional unit so far. -/
def UnitT.system : BitVec 3 := 5

namespace IDecoded

/-- `operator<=>`. Only the unit of the left operand is switched on. -/
def spaceship (this that : IDecoded) : PartialOrdering :=
  if this.unit = UnitT.system then
    (ofKeys this.unit.toNat that.unit.toNat).andThen
      (ofKeys this.function.toNat that.function.toNat)
  else .unordered

def equal (this that : IDecoded) : Bool := this.spaceship that == .equivalent

theorem spaceship_of_system {a b : IDecoded} (h : a.unit = UnitT.system) :
    a.spaceship b = ofKeys (toLex (a.unit.toNat, a.function.toNat))
      (toLex (b.unit.toNat, b.function.toNat)) := by
  rw [spaceship, if_pos h, ofKeys_andThen]

theorem spaceship_of_other {a : IDecoded} (h : a.unit ≠ UnitT.system) (b : IDecoded) :
    a.spaceship b = .unordered := by
  rw [spaceship, if_neg h]

/-- Two values compare equal when both are of the system unit and have one
function; no other field is looked at. -/
theorem equal_iff {a b : IDecoded} :
    a.equal b = true ↔
      a.unit = UnitT.system ∧ b.unit = UnitT.system ∧ a.function = b.function := by
  unfold equal
  rw [beq_iff_eq]
  by_cases hunit : a.unit = UnitT.system
  · rw [spaceship_of_system hunit, ofKeys_equivalent, toLex_inj, Prod.mk.injEq, BitVec.toNat_inj,
      BitVec.toNat_inj]
    constructor
    · rintro ⟨hsame, hfunction⟩
      exact ⟨hunit, hsame ▸ hunit, hfunction⟩
    · rintro ⟨-, hother, hfunction⟩
      exact ⟨hunit.trans hother.symm, hfunction⟩
  · rw [spaceship_of_other hunit]
    apply iff_of_false
    · exact PartialOrdering.noConfusion
    · exact fun h => hunit h.1

end IDecoded

end PipelineBench
