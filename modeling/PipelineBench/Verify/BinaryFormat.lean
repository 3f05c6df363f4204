import Mathlib.Algebra.Order.Ring.Int
import PipelineBench.Foundation.Checked
import PipelineBench.Model.Format

/-!
# `binary` is faithful

The characters after the prefix, read most significant first, are the value
modulo `2 ^ bits`. Both directions go by induction on the number of characters:
the last one is the lowest bit, the ones before it belong to half the value.
-/

namespace PipelineBench.Format

/-- The number a string of binary digits stands for, most significant first. -/
def readBinary (cs : List Char) : ℕ :=
  cs.foldl (fun n c => 2 * n + (c.toNat - '0'.toNat)) 0

theorem readBinary_concat (cs : List Char) (c : Char) :
    readBinary (cs ++ [c]) = 2 * readBinary cs + (c.toNat - '0'.toNat) := by
  unfold readBinary
  rw [List.foldl_append]
  rfl

/-! ## One digit -/

/-- The two characters a digit can be. -/
theorem digit_eq (value : ℤ) (shift : ℕ) :
    digit value shift = if (value >>> shift) % 2 = 0 then '0' else '1' := by
  unfold digit
  rcases Int.emod_two_eq_zero_or_one (value >>> shift) with hbit | hbit
  · rw [hbit]
    rfl
  · rw [hbit]
    rfl

theorem digit_succ (value : ℤ) (shift : ℕ) :
    digit value (shift + 1) = digit (value / 2) shift := by
  have hhalf : value >>> (1 : ℕ) = value / (2 : ℤ) := Int.shiftRight_eq_div_pow value 1
  unfold digit
  rw [Nat.add_comm shift, Int.shiftRight_add, hhalf]

theorem toNat_digit (value : ℤ) : ((digit value 0).toNat - '0'.toNat : ℕ) = value % 2 := by
  rw [digit_eq, Int.shiftRight_zero]
  rcases Int.emod_two_eq_zero_or_one value with hbit | hbit
  · rw [hbit]
    rfl
  · rw [hbit]
    rfl

/-! ## All digits -/

/-- The characters after the prefix. -/
def digits (value : ℤ) (bits : ℕ) : List Char :=
  (List.range bits).map fun bit => digit value (bits - bit - 1)

theorem digits_succ (value : ℤ) (bits : ℕ) :
    digits value (bits + 1) = digits (value / 2) bits ++ [digit value 0] := by
  unfold digits
  rw [List.range_succ, List.map_append, List.map_singleton, Nat.add_sub_cancel_left, Nat.sub_self]
  congr 1
  apply List.map_congr_left
  intro bit hbit
  have hlt : bit < bits := List.mem_range.mp hbit
  have hshift : bits + 1 - bit - 1 = (bits - bit - 1) + 1 := by omega
  rw [hshift, digit_succ]

theorem mem_digits {value : ℤ} {bits : ℕ} {c : Char} (hc : c ∈ digits value bits) :
    c = '0' ∨ c = '1' := by
  obtain ⟨bit, -, rfl⟩ := List.mem_map.mp hc
  rw [digit_eq]
  exact ite_eq_or_eq _ _ _

/-- The lowest bit, and the bits above it. -/
theorem emod_two_pow_succ (value : ℤ) (bits : ℕ) :
    value % 2 ^ (bits + 1) = 2 * (value / 2 % 2 ^ bits) + value % 2 := by
  have hm : (0 : ℤ) < 2 ^ bits := pow_pos (by decide) bits
  have hlow := Int.emod_add_mul_ediv value 2
  have hhigh := Int.emod_add_mul_ediv (value / 2) (2 ^ bits)
  have hnonneg := Int.emod_nonneg (value / 2) hm.ne'
  have hlt := Int.emod_lt_of_pos (value / 2) hm
  have hdiv : value / (2 * 2 ^ bits) = value / 2 / 2 ^ bits ∧
      value % (2 * 2 ^ bits) = 2 * (value / 2 % 2 ^ bits) + value % 2 := by
    rw [Int.ediv_emod_unique (by omega), Int.mul_assoc]
    omega
  rw [pow_succ, mul_comm]
  exact hdiv.2

theorem readBinary_digits (value : ℤ) (bits : ℕ) :
    (readBinary (digits value bits) : ℤ) = value % 2 ^ bits := by
  induction bits generalizing value with
  | zero => exact (Int.emod_one value).symm
  | succ bits ih =>
      rw [digits_succ, readBinary_concat, Nat.cast_add, Nat.cast_mul, ih, toNat_digit,
        emod_two_pow_succ]
      rfl

theorem digits_inj {value value' : ℤ} {bits : ℕ} :
    digits value bits = digits value' bits ↔ value % 2 ^ bits = value' % 2 ^ bits := by
  constructor
  · intro heq
    rw [← readBinary_digits, ← readBinary_digits, heq]
  · intro heq
    induction bits generalizing value value' with
    | zero => rfl
    | succ bits ih =>
        rw [emod_two_pow_succ, emod_two_pow_succ] at heq
        have hlow : value % 2 = value' % 2 := by omega
        have hhigh : value / 2 % 2 ^ bits = value' / 2 % 2 ^ bits := by omega
        rw [digits_succ, digits_succ, ih hhigh, digit_eq, digit_eq, Int.shiftRight_zero,
          Int.shiftRight_zero, hlow]

/-! ## The whole string -/

/-- **`binary` encodes faithfully.** Prefix, length, alphabet, and the number the
characters stand for; so the string is as good as the low bits of the value. -/
theorem binary_faithful (beyond beyond' : ℕ → Char) (bits_max count : ℕ) (value value' : ℤ) :
    let bits := if 0 < count ∧ count ≤ bits_max then count else bits_max
    (∃ cs, binary beyond bits_max value count = '0' :: 'b' :: cs ∧
      (binary beyond bits_max value count).length = 2 + bits ∧
      (∀ c ∈ cs, c = '0' ∨ c = '1') ∧
      (readBinary cs : ℤ) = value % 2 ^ bits) ∧
    (binary beyond bits_max value count = binary beyond' bits_max value' count ↔
      value % 2 ^ bits = value' % 2 ^ bits) := by
  intro bits
  have hbinary : binary beyond bits_max value count = '0' :: 'b' :: digits value bits :=
    binary_eq beyond bits_max value count
  have hbinary' : binary beyond' bits_max value' count = '0' :: 'b' :: digits value' bits :=
    binary_eq beyond' bits_max value' count
  rw [hbinary, hbinary']
  constructor
  · refine ⟨digits value bits, rfl, ?_, fun c => mem_digits, readBinary_digits value bits⟩
    rw [List.length_cons, List.length_cons, digits, List.length_map, List.length_range]
    omega
  · simp [digits_inj]

example : binary (fun _ => '?') 32 (-1) 3 = ['0', 'b', '1', '1', '1'] := by decide

/-! ## What it touches -/

/-- The loop stays inside the string and shifts by less than the width, whatever
the string held. -/
theorem foldlM_writeDigitChecked (t : IntegralType) (value : ℤ) {bits : ℕ}
    (hbits : bits ≤ t.bitsMax) {init : List Char} (hinit : init.length = 2 + bits) :
    (List.range bits).foldlM (writeDigitChecked t value bits) init =
      .ok ((List.range bits).foldl
        (fun result bit => result.set (2 + bit) (digit value (bits - bit - 1))) init) := by
  apply Checked.foldlM_ok (P := fun result => result.length = 2 + bits) _ hinit
  intro result hlen bit hbit
  have hlt : bit < bits := List.mem_range.mp hbit
  have hshift : bits - bit - 1 < t.promotedWidth := by
    unfold IntegralType.promotedWidth
    omega
  refine ⟨?_, ?_⟩
  · unfold writeDigitChecked digitChecked setChecked
    rw [if_pos hshift]
    exact if_pos (by omega)
  · rw [List.length_set, hlen]

/-- The first read is the one that fails: the literal has three characters. -/
theorem binaryChecked_eq (t : IntegralType) (value : ℤ) (count : ℕ) :
    binaryChecked t value count =
      if count = 1 then .ok (binary (fun _ => '?') t.bitsMax value count)
      else .error .readPastEnd := by
  have hmax : 8 ≤ t.bitsMax := Nat.le_mul_of_pos_left 8 t.size_pos
  unfold binaryChecked
  by_cases hcount : count = 1
  · have hbits : bitCount t.bitsMax count = 1 := by
      rw [bitCount, if_pos (by omega), hcount]
    rw [if_pos hcount, binary, hbits]
    exact foldlM_writeDigitChecked t value (by omega) rfl
  · have hbits : bitCount t.bitsMax count ≠ 1 ∧ bitCount t.bitsMax count ≠ 0 := by
      unfold bitCount
      split <;> omega
    rw [if_neg hcount]
    show (stringOf literalArray (2 + bitCount t.bitsMax count) >>= _) = _
    have hlen : literalArray.length = 3 := rfl
    rw [stringOf, if_neg (by omega)]
    rfl

/-- **`binary` reads past the literal.** All its accesses are in bounds exactly
when a single digit is asked for. -/
theorem binary_in_bounds_iff (t : IntegralType) (value : ℤ) (count : ℕ) :
    (∃ result, binaryChecked t value count = .ok result) ↔ count = 1 := by
  rw [binaryChecked_eq]
  by_cases hcount : count = 1
  · rw [if_pos hcount]
    exact ⟨fun _ => hcount, fun _ => ⟨_, rfl⟩⟩
  · rw [if_neg hcount]
    constructor
    · rintro ⟨result, hresult⟩
      cases hresult
    · intro h
      exact absurd h hcount

/-- The call of the comment in the source: six characters from an array of
three. -/
theorem binary_out_of_bounds :
    ¬ ∃ result, binaryChecked ⟨4, by decide⟩ 0x71C 4 = .ok result := by
  have herror : binaryChecked ⟨4, by decide⟩ 0x71C 4 = .error .readPastEnd := by rfl
  rintro ⟨result, hresult⟩
  rw [herror] at hresult
  cases hresult

end PipelineBench.Format
