import Mathlib.Data.List.Basic
import Mathlib.Data.List.Infix
import Mathlib.Tactic.Common

/-!
# Consecutive pairs of a list

`List.consecutivePairs` lists the neighbours of a list in order. A pair is among
them exactly when it is a two-element infix, and appending one element adds one
pair, so a table that counts transitions of a stream counts these.
-/

namespace PipelineBench.Consecutive

open List

variable {α : Type*}

@[simp] theorem pairs_singleton (a : α) : [a].consecutivePairs = [] := rfl

@[simp] theorem pairs_cons_cons (a b : α) (l : List α) :
    (a :: b :: l).consecutivePairs = (a, b) :: (b :: l).consecutivePairs := rfl

theorem length_pairs (l : List α) : l.consecutivePairs.length = l.length - 1 := by
  simp

/-- Appending one element adds the pair it forms with the last one. -/
theorem pairs_concat (l : List α) (x : α) :
    (l ++ [x]).consecutivePairs =
      l.consecutivePairs ++ (l.getLast?.map (·, x)).toList := by
  induction l with
  | nil => rfl
  | cons a l ih =>
      cases l with
      | nil => rfl
      | cons b l =>
          rw [cons_append, cons_append, pairs_cons_cons, pairs_cons_cons, ← cons_append, ih,
            getLast?_cons_cons]
          rfl

theorem mem_pairs_iff {a b : α} {l : List α} :
    (a, b) ∈ l.consecutivePairs ↔ [a, b] <:+: l := by
  induction l with
  | nil => simp
  | cons x l ih =>
      cases l with
      | nil => simp [infix_cons_iff]
      | cons y l =>
          have hx : [a, b] <:+: x :: y :: l ↔ [a, b] <+: x :: y :: l ∨ [a, b] <:+: y :: l :=
            infix_cons_iff
          rw [pairs_cons_cons, mem_cons, ih, hx, cons_prefix_cons, cons_prefix_cons,
            Prod.mk.injEq]
          simp

/-- The neighbours in a list given by index. -/
theorem pairs_map_range (f : ℕ → α) (m : ℕ) :
    ((range (m + 1)).map f).consecutivePairs = (range m).map fun k => (f k, f (k + 1)) := by
  induction m with
  | zero => rfl
  | succ m ih =>
      have hlast : ((range (m + 1)).map f).getLast? = some (f m) := by
        rw [range_succ, map_append, map_singleton, getLast?_concat]
      rw [range_succ, map_append, map_singleton, pairs_concat, ih, hlast]
      rw [range_succ, map_append]
      rfl

theorem infix_map_range_iff {f : ℕ → α} {m : ℕ} {a b : α} :
    [a, b] <:+: (range m).map f ↔ ∃ k, k + 1 < m ∧ f k = a ∧ f (k + 1) = b := by
  rw [← mem_pairs_iff]
  cases m with
  | zero => simp
  | succ m =>
      rw [pairs_map_range, mem_map]
      constructor
      · rintro ⟨k, hk, heq⟩
        rw [Prod.mk.injEq] at heq
        exact ⟨k, Nat.succ_lt_succ (mem_range.mp hk), heq⟩
      · rintro ⟨k, hk, ha, hb⟩
        exact ⟨k, mem_range.mpr (Nat.lt_of_succ_lt_succ hk), by rw [ha, hb]⟩

section Blocks

/-- Two-element blocks, one after the other. -/
def stream (l : List (α × α)) : List α := l.flatMap fun s => [s.1, s.2]

/-- The pairs from the end of one block, or from the element before the first,
to the start of the next. -/
def joints (p : α) : List (α × α) → List (α × α)
  | [] => []
  | (a, b) :: l => (p, a) :: joints b l

/-- A pair of a stream lies inside a block or is a joint. -/
theorem count_pairs_stream [DecidableEq α] (p : α) (l : List (α × α)) (x : α × α) :
    (p :: stream l).consecutivePairs.count x =
      l.count x + (joints p l).count x := by
  induction l generalizing p with
  | nil => rfl
  | cons s l ih =>
      rcases s with ⟨a, b⟩
      have hblock : stream ((a, b) :: l) = a :: b :: stream l := rfl
      rw [hblock, pairs_cons_cons, pairs_cons_cons, count_cons, count_cons, ih, joints,
        count_cons, count_cons]
      omega

/-- Streams join at the last element of the first one. -/
theorem joints_append (p a b : α) (l m : List (α × α)) :
    joints p (l ++ (a, b) :: m) = joints p (l ++ [(a, b)]) ++ joints b m := by
  induction l generalizing p with
  | nil => rfl
  | cons s l ih =>
      rw [cons_append, cons_append, joints, joints, ih, cons_append]

theorem joints_map_range (p : α) (h : ℕ → α × α) (n : ℕ) :
    joints p ((range (n + 1)).map h) =
      (p, (h 0).1) :: (range n).map fun k => ((h k).2, (h (k + 1)).1) := by
  induction n with
  | zero => rfl
  | succ n ih =>
      have hlast : (range (n + 1 + 1)).map h =
          (range n).map h ++ ((h n).1, (h n).2) :: [h (n + 1)] := by
        rw [range_succ, range_succ, map_append, map_append, append_assoc]
        rfl
      have hprior : (range n).map h ++ [((h n).1, (h n).2)] = (range (n + 1)).map h := by
        rw [range_succ, map_append]
        rfl
      rw [hlast, joints_append, hprior, ih, range_succ, map_append]
      rfl

end Blocks

end PipelineBench.Consecutive
