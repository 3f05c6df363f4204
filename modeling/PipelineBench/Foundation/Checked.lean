import Mathlib.Algebra.Group.Nat.Defs
import Mathlib.Tactic.Common
import Mathlib.Data.Option.Basic

/-!
# Checked operations

Unsigned arithmetic on machine words that refuses instead of wrapping, and loops
whose body may fail: one that keeps an invariant under which its body does not
fail runs as the loop without the checks.
-/

namespace PipelineBench.Checked

variable {w : ℕ}

/-- The sum, unless it overflows. -/
def add (x y : BitVec w) : Option (BitVec w) :=
  if x.toNat + y.toNat < 2 ^ w then some (x + y) else none

/-- The difference, unless it underflows. -/
def sub (x y : BitVec w) : Option (BitVec w) :=
  if y.toNat ≤ x.toNat then some (x - y) else none

theorem add_eq_some {x y : BitVec w} (h : x.toNat + y.toNat < 2 ^ w) :
    add x y = some (x + y) ∧ (x + y).toNat = x.toNat + y.toNat :=
  ⟨if_pos h, BitVec.toNat_add_of_lt h⟩

theorem sub_eq_some {x y : BitVec w} (h : y.toNat ≤ x.toNat) :
    sub x y = some (x - y) ∧ (x - y).toNat = x.toNat - y.toNat :=
  ⟨if_pos h, BitVec.toNat_sub_of_le h⟩

theorem foldlM_ok {α β ε : Type*} {f : β → α → Except ε β} {g : β → α → β} {P : β → Prop}
    {l : List α} (hstep : ∀ b, P b → ∀ a ∈ l, f b a = .ok (g b a) ∧ P (g b a)) {b : β}
    (hb : P b) : l.foldlM f b = .ok (l.foldl g b) := by
  induction l generalizing b with
  | nil => rfl
  | cons a l ih =>
      obtain ⟨hok, hnext⟩ := hstep b hb a List.mem_cons_self
      have hrest : ∀ b, P b → ∀ a ∈ l, f b a = .ok (g b a) ∧ P (g b a) := by
        intro b hb a ha
        exact hstep b hb a (List.mem_cons_of_mem _ ha)
      rw [List.foldlM_cons, hok, List.foldl_cons]
      exact ih hrest hnext

end PipelineBench.Checked
