import PipelineBench.Foundation.ChangeDetect
import PipelineBench.Model.Decoded

/-!
# The comparison of decoded instructions

What the comparison of `i_decoded_t` does to the signal that carries the
structure, and which laws it satisfies. A raw instruction, compared member by
member, has neither problem.
-/

namespace PipelineBench.DecodedLaws

open Comparison ChangeDetect

/-! ## The sibling -/

theorem IRaw.equal_iff {a b : IRaw} : a.equal b = true ↔ a = b := by
  unfold IRaw.equal
  rw [Bool.and_eq_true, beq_iff_eq, beq_iff_eq]
  exact IRaw.ext_iff.symm

/-- The defaulted comparison is lawful for all values. -/
theorem raw_lawful : LawfulOn IRaw.spaceship IRaw.equal Set.univ := by
  apply lawfulOn_of_key fun a => toLex (a.i_binary.toNat, a.i_number.toNat)
  · intro a _ b _
    exact ofKeys_andThen _ _ _ _
  · intro a _ b _
    rw [IRaw.equal_iff, toLex_inj, Prod.mk.injEq, BitVec.toNat_inj, BitVec.toNat_inj]
    exact IRaw.ext_iff

/-- A signal of raw instructions gives back what was written. -/
theorem raw_reads_back {update : IRaw → IRaw → IRaw} (h : DetectsChanges IRaw.equal update)
    (init : IRaw) (vs : List IRaw) : reads update init vs = vs := by
  rw [h.reads_eq_iff]
  have hall : ∀ u v : IRaw, u.equal v = true → u = v := fun u v => IRaw.equal_iff.mp
  induction vs generalizing init with
  | nil => exact .singleton init
  | cons v vs ih => exact List.isChain_cons_cons.mpr ⟨hall init v, ih v⟩

/-! ## The signal -/

/-- `v` would be dropped after `u`: both are of the system unit, with one
function, and differ elsewhere. -/
def Dropped (u v : IDecoded) : Prop :=
  u.unit = UnitT.system ∧ v.unit = UnitT.system ∧ u.function = v.function ∧ u ≠ v

theorem not_dropped_iff {u v : IDecoded} : ¬ Dropped u v ↔ (u.equal v = true → u = v) := by
  rw [IDecoded.equal_iff]
  unfold Dropped
  constructor
  · rintro hno ⟨hu, hv, hfunction⟩
    by_contra hne
    exact hno ⟨hu, hv, hfunction, hne⟩
  · rintro himp ⟨hu, hv, hfunction, hne⟩
    exact hne (himp ⟨hu, hv, hfunction⟩)

/-- **When a signal of decoded instructions drops nothing.** Every read gives back
what was written, in all fields, exactly when no value is one that is dropped
after the value before it. -/
theorem signal_reads_back_iff {update : IDecoded → IDecoded → IDecoded}
    (h : DetectsChanges IDecoded.equal update) (init : IDecoded) (vs : List IDecoded) :
    reads update init vs = vs ↔ (init :: vs).IsChain fun u v => ¬ Dropped u v := by
  rw [h.reads_eq_iff]
  apply List.IsChain.iff
  intro u v
  exact not_dropped_iff.symm

/-- The initial value of the signal, and of a local `i_decoded_t{}`. -/
def zeroDecoded : IDecoded := ⟨0, 0, 0, 0, 0, 0, 0, 0, 0, 0, 0⟩

/-- A system instruction that differs from others in its immediate only. -/
def systemImmediate (imm1 : BitVec 32) : IDecoded :=
  { zeroDecoded with unit := UnitT.system, imm1 }

/-- Two functions, and back. -/
theorem signal_reads_back_iff_functions :
    let vs := [systemImmediate 1, { systemImmediate 2 with function := 1 }, systemImmediate 3]
    reads (fun current new => if current.equal new then current else new) zeroDecoded vs = vs ↔
      (zeroDecoded :: vs).IsChain fun u v => ¬ Dropped u v :=
  signal_reads_back_iff (detectsChanges_ite _) _ _

/-- The second immediate never arrives. -/
theorem signal_drops_update :
    (systemImmediate 1).equal (systemImmediate 2) = true ∧
    systemImmediate 1 ≠ systemImmediate 2 ∧
    ∀ update, DetectsChanges IDecoded.equal update →
      reads update zeroDecoded [systemImmediate 1, systemImmediate 2] =
        [systemImmediate 1, systemImmediate 1] ∧
      reads update zeroDecoded [systemImmediate 1, systemImmediate 2] ≠
        [systemImmediate 1, systemImmediate 2] := by
  have hequal : (systemImmediate 1).equal (systemImmediate 2) = true := by decide
  refine ⟨hequal, by decide, ?_⟩
  intro update h
  have hfirst : update zeroDecoded (systemImmediate 1) = systemImmediate 1 :=
    h.takes _ _ (by decide)
  rw [reads, reads, reads, hfirst, h.keeps _ _ hequal]
  exact ⟨rfl, by decide⟩

/-! ## The order -/

/-- What the comparison says with the operands exchanged. -/
theorem spaceship_reverse_iff (a b : IDecoded) :
    b.spaceship a = (a.spaceship b).reverse ↔ (a.unit = UnitT.system ↔ b.unit = UnitT.system) := by
  by_cases ha : a.unit = UnitT.system <;> by_cases hb : b.unit = UnitT.system
  · rw [IDecoded.spaceship_of_system ha, IDecoded.spaceship_of_system hb]
    exact iff_of_true (ofKeys_reverse _ _) (iff_of_true ha hb)
  · -- ordered one way, unordered the other
    rw [IDecoded.spaceship_of_system ha, IDecoded.spaceship_of_other hb, eq_comm,
      PartialOrdering.reverse_eq_unordered]
    exact iff_of_false (ofKeys_ne_unordered _ _) fun h => hb (h.mp ha)
  · rw [IDecoded.spaceship_of_other ha, IDecoded.spaceship_of_system hb]
    exact iff_of_false (ofKeys_ne_unordered _ _) fun h => ha (h.mpr hb)
  · rw [IDecoded.spaceship_of_other ha, IDecoded.spaceship_of_other hb]
    exact iff_of_true rfl (iff_of_false ha hb)

theorem equal_refl_iff (a : IDecoded) : a.equal a = true ↔ a.unit = UnitT.system := by
  rw [IDecoded.equal_iff]
  exact ⟨fun h => h.1, fun h => ⟨h, h, rfl⟩⟩

/-- **When the comparison is lawful.** The laws hold among a set of values
exactly when all of them are of the system unit. -/
theorem lawful_iff_system (S : Set IDecoded) :
    LawfulOn IDecoded.spaceship IDecoded.equal S ↔ ∀ a ∈ S, a.unit = UnitT.system := by
  constructor
  · intro h a ha
    exact (equal_refl_iff a).mp (h.refl a ha)
  · intro hall
    apply lawfulOn_of_key fun a => toLex (a.unit.toNat, a.function.toNat)
    · intro a ha b _
      exact IDecoded.spaceship_of_system (hall a ha)
    · intro a ha b hb
      rw [IDecoded.equal_iff, toLex_inj, Prod.mk.injEq, BitVec.toNat_inj, BitVec.toNat_inj,
        hall a ha, hall b hb]
      exact ⟨fun h => ⟨rfl, h.2.2⟩, fun h => ⟨rfl, rfl, h.2⟩⟩

/-- A system instruction and one of unit 3. -/
theorem comparison_unlawful :
    ¬ LawfulOn IDecoded.spaceship IDecoded.equal Set.univ ∧
    (systemImmediate 0).spaceship { zeroDecoded with unit := 3 } = .greater ∧
    IDecoded.spaceship { zeroDecoded with unit := 3 } (systemImmediate 0) = .unordered ∧
    IDecoded.equal { zeroDecoded with unit := 3 } { zeroDecoded with unit := 3 } = false := by
  refine ⟨?_, by decide, by decide, by decide⟩
  intro h
  have hrefl := h.refl { zeroDecoded with unit := 3 } (Set.mem_univ _)
  exact absurd hrefl (by decide)

end PipelineBench.DecodedLaws
