import PipelineBench.Foundation.BitFields
import PipelineBench.Model.Signals

/-!
# Addresses

`model.h` divides an address twice: into the number of an instruction and two
zero bits, and into the tag of a memory line, the index of a word in the line
and a byte in the word. Each division has its own masks.
-/

namespace PipelineBench

/-- `model::address_t`, also `i_number_t` and `mem_tag_t` where they hold one. -/
abbrev Address := BitVec 32

/-- A mask of `bits` bits from `bit0` on, in `unsigned` arithmetic. -/
def maskOf (bits bit0 : ℕ) : Unsigned := ((1 <<< bits) - 1) <<< bit0

/-! ## `model::instruction` -/

namespace Instruction

def mbzBits : ℕ := 2

def addrBits : ℕ := 30

def mbzBit0 : ℕ := 0

def addrBit0 : ℕ := mbzBit0 + mbzBits

def addrMask : Address := maskOf addrBits addrBit0

def size : Unsigned := 1 <<< addrBit0

/-- The next instruction number. -/
def next (address : Address) : Address := (address &&& addrMask) + size

end Instruction

/-! ## `model::memory::line` -/

namespace Line

def byteBits : ℕ := 2

def wordBits : ℕ := 2

def tagBits : ℕ := 28

def byteBit0 : ℕ := 0

def wordBit0 : ℕ := byteBit0 + byteBits

def tagBit0 : ℕ := wordBit0 + wordBits

def wordMask : Address := maskOf wordBits wordBit0

def tagMask : Address := maskOf tagBits tagBit0

def size : Address := 1 <<< tagBit0

/-- The index of an instruction within its memory line. -/
def instructionIndex (address : Address) : Unsigned := (address &&& wordMask) >>> wordBit0

/-- The memory line tag. -/
def tag (address : Address) : Address := address &&& tagMask

/-- The tag of the next memory line. -/
def tagNext (address : Address) : Address := (address &&& tagMask) + size

end Line

/-! ## `model` -/

def instructionIndex (address : Address) : Unsigned := Line.instructionIndex address

def nextInstruction (address : Address) : Address := Instruction.next address

/-- Wraps at the end of memory. -/
def nextTag (address : Address) : Address := Line.tagNext address

def tag (address : Address) : Address := Line.tag address

/-! ## The numbers they stand for -/

open BitFields

theorem toNat_instructionIndex (a : Address) : (instructionIndex a).toNat = a.toNat / 4 % 4 := by
  have hmask : Line.wordMask.toNat = (2 ^ 2 - 1) * 2 ^ 2 := by decide
  show ((a &&& Line.wordMask) >>> 2).toNat = _
  rw [BitVec.toNat_ushiftRight, toNat_and_mask hmask, Nat.shiftRight_eq_div_pow,
    Nat.mul_div_cancel _ (Nat.two_pow_pos 2)]
  rfl

theorem toNat_tag (a : Address) : (tag a).toNat = a.toNat / 16 * 16 := by
  have hmask : Line.tagMask.toNat = (2 ^ 28 - 1) * 2 ^ 4 := by decide
  have hfield : field 4 28 a.toNat = a.toNat / 16 :=
    Nat.mod_eq_of_lt (Nat.div_lt_of_lt_mul a.isLt)
  show (a &&& Line.tagMask).toNat = _
  rw [toNat_and_mask hmask, hfield]
  rfl

theorem nextTag_eq (a : Address) : nextTag a = tag a + 16 := rfl

theorem toNat_nextInstruction (a : Address) :
    (nextInstruction a).toNat = (a.toNat / 4 * 4 + 4) % 2 ^ 32 := by
  have hmask : Instruction.addrMask.toNat = (2 ^ 30 - 1) * 2 ^ 2 := by decide
  have hfield : field 2 30 a.toNat = a.toNat / 4 :=
    Nat.mod_eq_of_lt (Nat.div_lt_of_lt_mul a.isLt)
  show ((a &&& Instruction.addrMask) + 4).toNat = _
  rw [BitVec.toNat_add, toNat_and_mask hmask, hfield]
  rfl

end PipelineBench
