import Mathlib.Algebra.BigOperators.Fin
import PipelineBench.Unit.EvilTest
import PipelineBench.Verify.RandomWeights

/-!
# The weights of the evil stimuli

Each iteration of `do_test_evil` reads five fields of one random word. The
comments beside them give probabilities; these are counted here, for one word and
for the words of a whole run.
-/

namespace PipelineBench.EvilTest

open BitFields Request

/-- The fields of a random word that gives the stimuli, lowest first. -/
def stimulusFields (a : MutStimuli) : List Field :=
  [.isSet 6 a.reset, .free 2, .isSet 2 (!a.is_advance), .free 6, .isSet 6 (!a.is_error), .free 2,
    .isSet 4 (!a.is_flush), .free 4, .isSet 1 (!a.is_valid), .free 31]

/-- A mask on a shifted word tests the field from the shift on. -/
theorem field_shift (s n : ℕ) (x : BitVec 64) : field 0 n (x >>> s).toNat = field s n x.toNat := by
  rw [BitVec.toNat_ushiftRight, Nat.shiftRight_eq_div_pow, ← field_add, Nat.add_zero]

theorem randomStimuli_eq (rand : BitVec 64) :
    randomStimuli rand =
      { reset := field 0 6 rand.toNat != 0
        is_advance := field 8 2 rand.toNat == 0
        is_error := field 16 6 rand.toNat == 0
        is_flush := field 24 4 rand.toNat == 0
        is_valid := field 32 1 rand.toNat == 0 } := by
  have h6 : (0x3f : BitVec 64).toNat = (2 ^ 6 - 1) * 2 ^ 0 := by decide
  have h4 : (0x0f : BitVec 64).toNat = (2 ^ 4 - 1) * 2 ^ 0 := by decide
  have h2 : (0x03 : BitVec 64).toNat = (2 ^ 2 - 1) * 2 ^ 0 := by decide
  have h1 : (0x01 : BitVec 64).toNat = (2 ^ 1 - 1) * 2 ^ 0 := by decide
  rw [← field_shift 0, ← field_shift 8, ← field_shift 16, ← field_shift 24, ← field_shift 32,
    ← and_mask_bne_zero h6, ← and_mask_beq_zero h2, ← and_mask_beq_zero h6,
    ← and_mask_beq_zero h4, ← and_mask_beq_zero h1]
  rfl

theorem randomStimuli_eq_iff (rand : BitVec 64) (a : MutStimuli) :
    randomStimuli rand = a ↔ passes 0 (stimulusFields a) rand.toNat = true := by
  have hnone : ∀ (x : ℕ) (b : Bool), ((x != 0) = !b) ↔ (x == 0) = b := by
    intro x b
    rw [bne, Bool.not_inj_iff]
  obtain ⟨reset, is_advance, is_error, is_flush, is_valid⟩ := a
  simp only [randomStimuli_eq, passes, stimulusFields, Field.isSet, Field.free,
    InputControls.mk.injEq, Bool.and_eq_true, beq_iff_eq, true_and, and_true, Nat.reduceAdd, hnone]

/-- The probabilities of the comments; `reset` is low active. -/
def stimulusWeight (a : MutStimuli) : ℚ :=
  bitWeight (63 / 64) a.reset * bitWeight (1 / 4) a.is_advance * bitWeight (1 / 64) a.is_error *
    bitWeight (1 / 16) a.is_flush * bitWeight (1 / 2) a.is_valid

theorem prod_share_stimulusFields (a : MutStimuli) :
    ((stimulusFields a).map Field.share).prod = stimulusWeight a := by
  have h6 : (1 / 2 ^ 6 : ℚ) = 1 / 64 := by norm_num
  have hreset : bitWeight (1 - 1 / 64) a.reset = bitWeight (63 / 64) a.reset := by norm_num
  have h2 : (1 / 2 ^ 2 : ℚ) = 1 / 4 := by norm_num
  have h4 : (1 / 2 ^ 4 : ℚ) = 1 / 16 := by norm_num
  have h1 : (1 / 2 ^ 1 : ℚ) = 1 / 2 := by norm_num
  simp only [stimulusFields, List.map_cons, List.map_nil, List.prod_cons, List.prod_nil,
    share_isSet, Field.share_free, bitWeight_not, h6, hreset, h2, h4, h1, one_mul, mul_one,
    stimulusWeight, mul_assoc]

theorem card_randomStimuli (a : MutStimuli) :
    (Nat.card {rand : BitVec 64 // randomStimuli rand = a} : ℚ) = 2 ^ 64 * stimulusWeight a := by
  have hwidth : width (stimulusFields a) = 64 := rfl
  rw [← prod_share_stimulusFields, ← card_passes hwidth]
  congr 1
  exact Nat.card_congr (Equiv.subtypeEquivRight fun rand => randomStimuli_eq_iff rand a)

/-- **The stimuli have the stated weights, independently.** Of all the words a
run of `n` iterations may draw, a sequence of stimuli gets the product of the
probabilities of its bits over all iterations. -/
theorem stimuli_independent (n : ℕ) (stim : Fin n → MutStimuli) :
    (Nat.card {words : Fin n → BitVec 64 // ∀ i, randomStimuli (words i) = stim i} : ℚ) =
      (2 ^ 64) ^ n * ∏ i, stimulusWeight (stim i) := by
  rw [card_stream fun i x => randomStimuli x = stim i, Nat.cast_prod]
  calc ∏ i, (Nat.card {rand : BitVec 64 // randomStimuli rand = stim i} : ℚ)
      = ∏ i, 2 ^ 64 * stimulusWeight (stim i) :=
        Finset.prod_congr rfl fun i _ => card_randomStimuli (stim i)
    _ = (2 ^ 64) ^ n * ∏ i, stimulusWeight (stim i) := by
        rw [Finset.prod_mul_distrib, Finset.prod_const, Finset.card_univ, Fintype.card_fin]

end PipelineBench.EvilTest
