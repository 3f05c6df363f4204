import Mathlib.Logic.Function.Iterate
import Mathlib.Tactic.Common

/-!
# Odometers

A digit below `n` that counts up, and what it carries into when it wraps. Any
process that moves an odometer one step at a time is at a known place after `k`
steps; `moved_iterate` and `displayed_iterate` need only its one step.
-/

namespace PipelineBench.Odometer

variable {α β : Type*} {n : ℕ} {carry : α → α}

/-- The digit counts up; after `n - 1` it returns to `0` and carries. -/
def step (n : ℕ) (carry : α → α) (s : α × ℕ) : α × ℕ :=
  if s.2 + 1 = n then (carry s.1, 0) else (s.1, s.2 + 1)

theorem step_last (high : α) {i : ℕ} (hi : i + 1 = n) : step n carry (high, i) = (carry high, 0) :=
  if_pos hi

theorem step_next (high : α) {i : ℕ} (hi : i + 1 ≠ n) : step n carry (high, i) = (high, i + 1) :=
  if_neg hi

theorem step_digit_lt {s : α × ℕ} (hs : s.2 < n) : (step n carry s).2 < n := by
  obtain ⟨high, i⟩ := s
  by_cases hi : i + 1 = n
  · rw [step_last high hi]
    exact Nat.zero_lt_of_lt hs
  · rw [step_next high hi]
    exact Nat.lt_of_le_of_ne hs hi

/-- The number after one whose digit was the last. -/
theorem succ_of_last {k : ℕ} (hlast : k % n + 1 = n) :
    (k + 1) / n = k / n + 1 ∧ (k + 1) % n = 0 := by
  have hn : 0 < n := by omega
  have hdiv := Nat.div_add_mod k n
  rw [Nat.div_mod_unique hn, Nat.mul_add, Nat.mul_one]
  omega

theorem succ_of_next {k : ℕ} (hn : 0 < n) (hnext : k % n + 1 ≠ n) :
    (k + 1) / n = k / n ∧ (k + 1) % n = k % n + 1 := by
  have hdiv := Nat.div_add_mod k n
  have hlt : k % n < n := Nat.mod_lt k hn
  rw [Nat.div_mod_unique hn]
  omega

/-- The digit is the last one exactly before a multiple of `n`. -/
theorem dvd_succ_iff {k : ℕ} (hn : 0 < n) : n ∣ k + 1 ↔ k % n + 1 = n := by
  constructor
  · intro hdvd
    by_contra hnext
    have hmod := (succ_of_next hn hnext).2
    rw [Nat.mod_eq_zero_of_dvd hdvd] at hmod
    exact absurd hmod.symm (Nat.succ_ne_zero _)
  · intro hlast
    exact Nat.dvd_of_mod_eq_zero (succ_of_last hlast).2

/-- The whole run: `k` steps add `k` to the digit and carry the quotient. -/
theorem iterate_step (high : α) {i : ℕ} (hi : i < n) (k : ℕ) :
    (step n carry)^[k] (high, i) = (carry^[(i + k) / n] high, (i + k) % n) := by
  induction k with
  | zero =>
      rw [Nat.add_zero, Nat.div_eq_of_lt hi, Nat.mod_eq_of_lt hi]
      rfl
  | succ k ih =>
      rw [Function.iterate_succ_apply', ih, ← Nat.add_assoc]
      by_cases hlast : (i + k) % n + 1 = n
      · rw [step_last _ hlast, (succ_of_last hlast).1, (succ_of_last hlast).2,
          Function.iterate_succ_apply']
      · have hnext := succ_of_next (Nat.zero_lt_of_lt hi) hlast
        rw [step_next _ hlast, hnext.1, hnext.2]

/-- A process whose every step moves the odometer it shows by one. -/
theorem moved_iterate {f : β → β} {place : β → α × ℕ}
    (hstep : ∀ b, place (f b) = step n carry (place b)) {b : β} (hb : (place b).2 < n) (k : ℕ) :
    place (f^[k] b) = (carry^[((place b).2 + k) / n] (place b).1, ((place b).2 + k) % n) := by
  have hsemi : Function.Semiconj place f (step n carry) := hstep
  rw [hsemi.iterate_right k b]
  exact iterate_step _ hb k

/-- A process whose states display odometers, each step turning one displayed
odometer into the next. -/
theorem displayed_iterate {f : β → β} {display : α × ℕ → β}
    (hstep : ∀ s : α × ℕ, s.2 < n → f (display s) = display (step n carry s)) (k : ℕ)
    (s : α × ℕ) (hs : s.2 < n) :
    f^[k] (display s) = display (carry^[(s.2 + k) / n] s.1, (s.2 + k) % n) := by
  rw [← iterate_step s.1 hs k]
  induction k generalizing s with
  | zero => rfl
  | succ k ih =>
      rw [Function.iterate_succ_apply, Function.iterate_succ_apply, hstep s hs]
      exact ih (step n carry s) (step_digit_lt hs)

end PipelineBench.Odometer
