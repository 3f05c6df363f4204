import Mathlib.Data.Int.Notation
import Mathlib.Data.List.Basic
import Mathlib.Tactic.Common

/-!
# Printing

A `bool`, and `utility::format::binary`. The string of the latter starts as
`2 + bits` characters read from the literal `"0b"`, whose array has three; what
lies beyond it is a parameter. The loop then overwrites every character after the
prefix.
-/

namespace PipelineBench.Format

/-- A `bool` as `operator<<` prints it. -/
def showBit (b : Bool) : String := if b then "1" else "0"

/-! ## `binary` -/

/-- The characters at the address of the literal. -/
def literal (beyond : ℕ → Char) : ℕ → Char
  | 0 => '0'
  | 1 => 'b'
  | 2 => '\x00'
  | k => beyond k

/-- `static_cast<char>('0' + ((value >> shift) bitand 1))`; the shift of a
negative value is arithmetic. -/
def digit (value : ℤ) (shift : ℕ) : Char :=
  Char.ofNat ('0'.toNat + ((value >>> shift) % 2).toNat)

def bitCount (bits_max count : ℕ) : ℕ :=
  if 0 < count ∧ count ≤ bits_max then count else bits_max

/-- `binary(value, count)` for an integral type of `bits_max` bits. -/
def binary (beyond : ℕ → Char) (bits_max : ℕ) (value : ℤ) (count : ℕ) : List Char :=
  let bits := bitCount bits_max count
  let result := (List.range (2 + bits)).map (literal beyond)
  (List.range bits).foldl
    (fun result bit => result.set (2 + bit) (digit value (bits - bit - 1))) result

theorem foldl_set_range {α : Type*} (f : ℕ → α) (pre : List α) (n : ℕ) (l : List α) :
    n ≤ l.length →
      (List.range n).foldl (fun acc k => acc.set (pre.length + k) (f k)) (pre ++ l) =
        pre ++ (List.range n).map f ++ l.drop n := by
  induction n with
  | zero => simp
  | succ n ih =>
      intro hlen
      have hn : n < l.length := hlen
      rw [List.range_succ, List.foldl_append, ih (Nat.le_of_lt hn), List.map_append,
        List.foldl_cons, List.foldl_nil, List.append_assoc,
        List.set_append_right _ _ (Nat.le_add_right _ _), Nat.add_sub_cancel_left,
        List.set_append_right _ _ (by simp), List.length_map, List.length_range, Nat.sub_self,
        List.drop_eq_getElem_cons hn, List.set_cons_zero, List.append_assoc, List.append_assoc]
      rfl

/-- What the string constructor found beyond the literal never shows. -/
theorem binary_eq (beyond : ℕ → Char) (bits_max : ℕ) (value : ℤ) (count : ℕ) :
    binary beyond bits_max value count =
      '0' :: 'b' :: (List.range (bitCount bits_max count)).map fun bit =>
        digit value (bitCount bits_max count - bit - 1) := by
  have hinit : (List.range (2 + bitCount bits_max count)).map (literal beyond) =
      ['0', 'b'] ++ (List.range (bitCount bits_max count)).map fun k => literal beyond (2 + k) := by
    rw [List.range_add, List.map_append, List.map_map]
    rfl
  have hloop := foldl_set_range
    (fun bit => digit value (bitCount bits_max count - bit - 1)) ['0', 'b']
    (bitCount bits_max count)
    ((List.range (bitCount bits_max count)).map fun k => literal beyond (2 + k)) (by simp)
  rw [binary, hinit]
  refine hloop.trans ?_
  simp

example : binary (fun _ => '?') 32 0x71C 4 = ['0', 'b', '1', '1', '0', '0'] := by decide

/-! ## `binary` with every access checked -/

/-- What the language leaves undefined. -/
inductive Undefined where
  | readPastEnd
  | shiftTooWide
  | indexOutOfRange
  deriving DecidableEq, Repr

/-- An integral type, by its `sizeof`. -/
structure IntegralType where
  size : ℕ
  size_pos : 0 < size

def IntegralType.bitsMax (t : IntegralType) : ℕ := t.size * 8

/-- Types narrower than `int` are promoted to it. -/
def IntegralType.promotedWidth (t : IntegralType) : ℕ := max 32 t.bitsMax

/-- The array that the literal `"0b"` names. -/
def literalArray : List Char := ['0', 'b', '\x00']

/-- `std::string(array, n)`, which reads `n` characters. -/
def stringOf (array : List Char) (n : ℕ) : Except Undefined (List Char) :=
  if n ≤ array.length then .ok (array.take n) else .error .readPastEnd

def digitChecked (width : ℕ) (value : ℤ) (shift : ℕ) : Except Undefined Char :=
  if shift < width then .ok (digit value shift) else .error .shiftTooWide

def setChecked (result : List Char) (index : ℕ) (c : Char) : Except Undefined (List Char) :=
  if index < result.length then .ok (result.set index c) else .error .indexOutOfRange

/-- The body of the loop. -/
def writeDigitChecked (t : IntegralType) (value : ℤ) (bits : ℕ) (result : List Char) (bit : ℕ) :
    Except Undefined (List Char) := do
  let c ← digitChecked t.promotedWidth value (bits - bit - 1)
  setChecked result (2 + bit) c

def binaryChecked (t : IntegralType) (value : ℤ) (count : ℕ) : Except Undefined (List Char) := do
  let bits := bitCount t.bitsMax count
  let result ← stringOf literalArray (2 + bits)
  (List.range bits).foldlM (writeDigitChecked t value bits) result

end PipelineBench.Format
