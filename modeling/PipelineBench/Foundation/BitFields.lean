import Mathlib.Algebra.BigOperators.Group.List.Basic
import Mathlib.Algebra.Field.Basic
import Mathlib.Algebra.Field.Rat
import Mathlib.Data.Nat.Count
import Mathlib.SetTheory.Cardinal.Finite

/-!
# Fields of a machine word

A mask selects a field, a group of consecutive bits. Conditions on disjoint
fields that together make up a word are independent: the share of the words that
meet all of them is the product of the shares of the fields.
-/

namespace PipelineBench.BitFields

/-! ## Masks -/

/-- The number in the `n` bits of `x` from bit `s` on. -/
def field (s n x : ℕ) : ℕ := x / 2 ^ s % 2 ^ n

theorem field_zero (n x : ℕ) : field 0 n x = x % 2 ^ n := by
  rw [field, Nat.pow_zero, Nat.div_one]

theorem field_add (s t n x : ℕ) : field (s + t) n x = field t n (x / 2 ^ s) := by
  rw [field, field, Nat.div_div_eq_div_mul, Nat.pow_add]

theorem and_mask (s n x : ℕ) : x &&& (2 ^ n - 1) * 2 ^ s = field s n x * 2 ^ s := by
  apply Nat.eq_of_testBit_eq
  intro i
  rw [field, Nat.testBit_and, Nat.testBit_mul_two_pow, Nat.testBit_mul_two_pow,
    Nat.testBit_two_pow_sub_one, Nat.testBit_mod_two_pow, Nat.testBit_div_two_pow]
  by_cases hi : s ≤ i
  · rw [Nat.sub_add_cancel hi, Bool.and_left_comm, Bool.and_comm (x.testBit i)]
  · simp [hi]

variable {w s n : ℕ} {mask : BitVec w}

theorem toNat_and_mask (hmask : mask.toNat = (2 ^ n - 1) * 2 ^ s) (x : BitVec w) :
    (x &&& mask).toNat = field s n x.toNat * 2 ^ s := by
  rw [BitVec.toNat_and, hmask, and_mask]

/-- A test against a mask is a test of the field. -/
theorem and_mask_beq_zero (hmask : mask.toNat = (2 ^ n - 1) * 2 ^ s) (x : BitVec w) :
    (x &&& mask == 0) = (field s n x.toNat == 0) := by
  rw [Bool.eq_iff_iff, beq_iff_eq, beq_iff_eq, ← BitVec.toNat_inj, toNat_and_mask hmask]
  show field s n x.toNat * 2 ^ s = 0 % 2 ^ w ↔ _
  rw [Nat.zero_mod, Nat.mul_eq_zero]
  exact or_iff_left (Nat.two_pow_pos s).ne'

theorem and_mask_bne_zero (hmask : mask.toNat = (2 ^ n - 1) * 2 ^ s) (x : BitVec w) :
    (x &&& mask != 0) = (field s n x.toNat != 0) := by
  rw [bne, bne, and_mask_beq_zero hmask]

/-! ## Counting -/

theorem count_congr {p q : ℕ → Prop} [DecidablePred p] [DecidablePred q] {n : ℕ}
    (h : ∀ x < n, p x ↔ q x) : Nat.count p n = Nat.count q n :=
  Nat.le_antisymm (Nat.count_mono_left fun x hx => (h x hx).mp)
    (Nat.count_mono_left fun x hx => (h x hx).mpr)

/-- The low digit and the rest of a number below `a * b` are independent. -/
theorem count_mul (p q : ℕ → Prop) [DecidablePred p] [DecidablePred q] (a b : ℕ) :
    Nat.count (fun x => p (x % a) ∧ q (x / a)) (a * b) = Nat.count p a * Nat.count q b := by
  induction b with
  | zero => simp
  | succ b ih =>
      -- the rest is `b` throughout the last `a` numbers
      have hlast : Nat.count (fun x => p ((a * b + x) % a) ∧ q ((a * b + x) / a)) a =
          Nat.count (fun x => p x ∧ q b) a := by
        apply count_congr
        intro x hx
        rw [Nat.mul_add_mod, Nat.mod_eq_of_lt hx, Nat.mul_add_div (Nat.zero_lt_of_lt hx),
          Nat.div_eq_of_lt hx, Nat.add_zero]
      rw [Nat.mul_add, Nat.mul_one, Nat.count_add, ih, hlast, Nat.count_succ, Nat.mul_add]
      by_cases hq : q b
      · simp [hq]
      · simp [hq]

/-- A group of bits, and what is asked of the number in them. -/
structure Field where
  width : ℕ
  holds : ℕ → Bool

namespace Field

/-- Bits nothing is asked of. -/
def free (width : ℕ) : Field := ⟨width, fun _ => true⟩

/-- Bits of which some are set, or none. -/
def isSet (width : ℕ) (wanted : Bool) : Field := ⟨width, fun x => (x != 0) == wanted⟩

/-- The numbers that pass. -/
def count (f : Field) : ℕ := Nat.count (fun x => f.holds x = true) (2 ^ f.width)

/-- The part of all numbers that passes. -/
def share (f : Field) : ℚ := f.count / 2 ^ f.width

theorem cast_count (f : Field) : (f.count : ℚ) = 2 ^ f.width * f.share :=
  (mul_div_cancel₀ _ (pow_ne_zero f.width two_ne_zero)).symm

theorem share_free (width : ℕ) : (free width).share = 1 := by
  have hcount : (free width).count = 2 ^ width := by simp [count, free]
  rw [share, hcount, Nat.cast_pow, Nat.cast_ofNat]
  exact div_self (pow_ne_zero width two_ne_zero)

theorem share_isSet (width : ℕ) (wanted : Bool) :
    (isSet width wanted).share = if wanted then 1 - 1 / 2 ^ width else 1 / 2 ^ width := by
  -- only the number `0` has no bit set
  have hcount : (isSet width wanted).count = if wanted then 2 ^ width - 1 else 1 := by
    have hpow : 2 ^ width = (2 ^ width - 1) + 1 := (Nat.sub_add_cancel Nat.one_le_two_pow).symm
    show Nat.count (fun x => ((x != 0) == wanted) = true) (2 ^ width) = _
    rw [hpow, Nat.count_succ']
    cases wanted <;> simp
  have hpow : (2 : ℚ) ^ width ≠ 0 := pow_ne_zero width two_ne_zero
  rw [share, hcount]
  show _ / 2 ^ width = _
  cases wanted with
  | false => rw [if_neg Bool.false_ne_true, if_neg Bool.false_ne_true, Nat.cast_one]
  | true =>
      rw [if_pos rfl, if_pos rfl, Nat.cast_sub Nat.one_le_two_pow, sub_div, Nat.cast_pow,
        Nat.cast_one, Nat.cast_ofNat, div_self hpow]

end Field

/-- The width of a word made of the given fields, lowest first. -/
def width (fs : List Field) : ℕ := (fs.map Field.width).sum

/-- The fields of `x` from bit `s` on are all as asked. -/
def passes : ℕ → List Field → ℕ → Bool
  | _, [], _ => true
  | s, f :: fs, x => f.holds (field s f.width x) && passes (s + f.width) fs x

theorem passes_add (s t : ℕ) (fs : List Field) (x : ℕ) :
    passes (s + t) fs x = passes t fs (x / 2 ^ s) := by
  induction fs generalizing t with
  | nil => rfl
  | cons f fs ih => rw [passes, passes, field_add, Nat.add_assoc, ih]

theorem count_passes (fs : List Field) :
    Nat.count (fun x => passes 0 fs x = true) (2 ^ width fs) = (fs.map Field.count).prod := by
  induction fs with
  | nil => simp [width, passes]
  | cons f fs ih =>
      have hwidth : 2 ^ width (f :: fs) = 2 ^ f.width * 2 ^ width fs := by
        rw [← Nat.pow_add]
        rfl
      have hsplit : ∀ x < 2 ^ width (f :: fs), passes 0 (f :: fs) x = true ↔
          f.holds (x % 2 ^ f.width) = true ∧ passes 0 fs (x / 2 ^ f.width) = true := by
        intro x _
        rw [passes, Bool.and_eq_true_iff, field_zero, Nat.add_comm 0, passes_add]
      rw [count_congr hsplit, hwidth,
        count_mul (fun x => f.holds x = true) (fun x => passes 0 fs x = true), ih]
      rfl

/-- Words counted through the numbers they hold. -/
theorem card_toNat (p : ℕ → Prop) [DecidablePred p] (w : ℕ) :
    Nat.card {x : BitVec w // p x.toNat} = Nat.count p (2 ^ w) := by
  have e : {x : BitVec w // p x.toNat} ≃ {k : ℕ // k < 2 ^ w ∧ p k} :=
    { toFun := fun x => ⟨x.1.toNat, x.1.isLt, x.2⟩
      invFun := fun k => ⟨BitVec.ofNatLT k.1 k.2.1, k.2.2⟩
      left_inv := fun x => rfl
      right_inv := fun k => rfl }
  rw [Nat.card_congr e, Nat.count_eq_card_filter_range]
  apply Nat.subtype_card
  intro k
  rw [Finset.mem_filter, Finset.mem_range]

theorem cast_prod_count (fs : List Field) :
    ((fs.map Field.count).prod : ℚ) = 2 ^ width fs * (fs.map Field.share).prod := by
  induction fs with
  | nil => simp [width]
  | cons f fs ih =>
      rw [List.map_cons, List.prod_cons, Nat.cast_mul, ih, f.cast_count, List.map_cons,
        List.prod_cons, mul_mul_mul_comm, ← pow_add]
      rfl

/-- **Fields are independent.** The share of the words whose fields are all as
asked is the product of the shares of the fields. -/
theorem card_passes {fs : List Field} {w : ℕ} (hw : width fs = w) :
    (Nat.card {x : BitVec w // passes 0 fs x.toNat = true} : ℚ) =
      2 ^ w * (fs.map Field.share).prod := by
  rw [card_toNat (fun x => passes 0 fs x = true), ← hw, count_passes, cast_prod_count]

/-- Words drawn one after the other are independent too. -/
theorem card_stream {w n : ℕ} (p : Fin n → BitVec w → Prop) :
    Nat.card {words : Fin n → BitVec w // ∀ i, p i (words i)} =
      ∏ i, Nat.card {x : BitVec w // p i x} :=
  (Nat.card_congr Equiv.subtypePiEquivPi).trans Nat.card_pi

end PipelineBench.BitFields
