import PipelineBench.Foundation.Odometer
import PipelineBench.Model.Address

/-!
# Walking instructions walks memory lines

Seen through the division into memory lines, `nextInstruction` is an odometer:
the index of the word counts to four and carries into the tag by `nextTag`.
-/

namespace PipelineBench

/-- The line an address is in, and the word of the line. -/
def place (a : Address) : Address × ℕ := (tag a, (instructionIndex a).toNat)

theorem instructionIndex_lt (a : Address) : (instructionIndex a).toNat < 4 := by
  rw [toNat_instructionIndex]
  exact Nat.mod_lt _ (by decide)

/-- The three parts make up the address. -/
theorem parts_add (a : Address) : tag a + 4 * instructionIndex a + a % 4 = a := by
  apply BitVec.eq_of_toNat_eq
  have ha := a.isLt
  have hword : (4 * instructionIndex a).toNat = 4 * (a.toNat / 4 % 4) := by
    rw [BitVec.toNat_mul, toNat_instructionIndex]
    show 4 * _ % 2 ^ 32 = _
    omega
  have hbyte : (a % 4).toNat = a.toNat % 4 := rfl
  rw [BitVec.toNat_add, BitVec.toNat_add, toNat_tag, hword, hbyte]
  omega

theorem nextInstruction_aligned (a : Address) : nextInstruction a % 4 = 0 := by
  apply BitVec.eq_of_toNat_eq
  show (nextInstruction a).toNat % 4 = 0
  rw [toNat_nextInstruction]
  omega

/-- From the last word of a line to the first of the next; the last line of
memory is followed by the first. -/
theorem nextInstruction_of_last {a : Address} (hlast : (instructionIndex a).toNat + 1 = 4) :
    tag (nextInstruction a) = nextTag (tag a) ∧
      (instructionIndex (nextInstruction a)).toNat = 0 := by
  have ha := a.isLt
  rw [toNat_instructionIndex] at hlast
  constructor
  · apply BitVec.eq_of_toNat_eq
    rw [toNat_tag, toNat_nextInstruction, nextTag_eq, BitVec.toNat_add, toNat_tag, toNat_tag]
    show _ = (a.toNat / 16 * 16 / 16 * 16 + 16) % 2 ^ 32
    rw [Nat.mul_div_cancel _ (by decide)]
    omega
  · rw [toNat_instructionIndex, toNat_nextInstruction]
    omega

/-- Within a line the tag stays. -/
theorem nextInstruction_of_next {a : Address} (hnext : (instructionIndex a).toNat + 1 ≠ 4) :
    tag (nextInstruction a) = tag a ∧
      (instructionIndex (nextInstruction a)).toNat = (instructionIndex a).toNat + 1 := by
  have ha := a.isLt
  rw [toNat_instructionIndex] at hnext
  constructor
  · apply BitVec.eq_of_toNat_eq
    rw [toNat_tag, toNat_nextInstruction, toNat_tag]
    omega
  · rw [toNat_instructionIndex, toNat_nextInstruction, toNat_instructionIndex]
    omega

/-- One instruction on is one step of the odometer. -/
theorem place_nextInstruction (a : Address) :
    place (nextInstruction a) = Odometer.step 4 nextTag (place a) := by
  unfold place
  by_cases hlast : (instructionIndex a).toNat + 1 = 4
  · obtain ⟨htag, hindex⟩ := nextInstruction_of_last hlast
    rw [Odometer.step_last _ hlast, htag, hindex]
  · obtain ⟨htag, hindex⟩ := nextInstruction_of_next hlast
    rw [Odometer.step_next _ hlast, htag, hindex]

/-- Any number of instructions on. -/
theorem place_iterate (a : Address) (k : ℕ) :
    place (nextInstruction^[k] a) =
      (nextTag^[((instructionIndex a).toNat + k) / 4] (tag a),
        ((instructionIndex a).toNat + k) % 4) :=
  Odometer.moved_iterate place_nextInstruction (instructionIndex_lt a) k

/-- **Walking instructions walks memory lines.** Tag, word and byte make up the
address, and `k` steps of `nextInstruction` lead to the word `k` further on,
counted in lines of four words one `nextTag` apart. -/
theorem walk_visits_lines (a : Address) :
    tag a + 4 * instructionIndex a + a % 4 = a ∧
      ∀ k : ℕ, 1 ≤ k →
        nextInstruction^[k] a % 4 = 0 ∧
        (instructionIndex (nextInstruction^[k] a)).toNat =
          ((instructionIndex a).toNat + k) % 4 ∧
        tag (nextInstruction^[k] a) =
          nextTag^[((instructionIndex a).toNat + k) / 4] (tag a) := by
  refine ⟨parts_add a, ?_⟩
  intro k hk
  have hplace := Prod.mk.inj (place_iterate a k)
  refine ⟨?_, hplace.2, hplace.1⟩
  obtain ⟨j, rfl⟩ := Nat.exists_eq_add_of_le' hk
  rw [Function.iterate_succ_apply']
  exact nextInstruction_aligned _

/-- From a misaligned address in the last line, across the end of memory. -/
theorem walk_visits_lines_wrapped :
    nextInstruction^[3] 0xFFFFFFF7 % 4 = 0 ∧
      (instructionIndex (nextInstruction^[3] 0xFFFFFFF7)).toNat = 0 ∧
      tag (nextInstruction^[3] 0xFFFFFFF7) = nextTag^[1] 0xFFFFFFF0 :=
  (walk_visits_lines 0xFFFFFFF7).2 3 (by decide)

end PipelineBench
