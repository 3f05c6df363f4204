import Mathlib.Data.List.Basic
import PipelineBench.Utility.ActivityIndicator

/-!
# What `reset` forgets

After `reset` the indicator is a fresh one, except that it goes on counting
cycles from where it stood. Two indicators that differ in that count alone
answer alike until the first `complete`, which prints it.
-/

namespace PipelineBench.Utility.ActivityIndicator

open Machine

/-! ## Ahead by some cycles -/

/-- The same indicator with `d` more cycles on its count. -/
def ahead (s : ActivityIndicator) (d : Unsigned) : ActivityIndicator :=
  { s with m_cycles := s.m_cycles + d }

theorem ahead_zero (s : ActivityIndicator) : s.ahead 0 = s :=
  congrArg (fun cycles => { s with m_cycles := cycles }) (BitVec.add_zero s.m_cycles)

theorem ahead_ahead (s : ActivityIndicator) (d e : Unsigned) :
    (s.ahead d).ahead e = s.ahead (d + e) :=
  congrArg (fun cycles => { s with m_cycles := cycles }) (BitVec.add_assoc s.m_cycles d e)

theorem tic_ahead (s : ActivityIndicator) (d : Unsigned) :
    (s.ahead d).tic = (s.tic.1, s.tic.2.ahead d) := by
  have hcycles : s.m_cycles + d + 1 = s.m_cycles + 1 + d := by
    rw [BitVec.add_assoc, BitVec.add_comm d, BitVec.add_assoc]
  unfold tic
  by_cases hs : s.m_is_complete = true
  · rw [if_pos hs]
    exact if_pos hs
  · rw [if_neg hs]
    refine (if_neg hs).trans ?_
    simp only [ahead, hcycles]
    rfl

theorem reset_ahead (s : ActivityIndicator) (d : Unsigned) :
    (s.ahead d).reset = (s.reset.1, s.reset.2.ahead d) := by
  unfold reset
  by_cases hs : (!s.m_is_complete) = true
  · rw [if_pos hs]
    exact if_pos hs
  · rw [if_neg hs]
    exact if_neg hs

/-- Until `complete` is called the count does not show. -/
theorem run_ahead (s : ActivityIndicator) (d : Unsigned) {calls : List Call}
    (hcalls : Call.complete ∉ calls) :
    answers step (s.ahead d) calls = answers step s calls ∧
      after step (s.ahead d) calls = (after step s calls).ahead d := by
  induction calls generalizing s with
  | nil => exact ⟨rfl, rfl⟩
  | cons call calls ih =>
      rw [List.mem_cons, not_or] at hcalls
      have hstep : step (s.ahead d) call = ((step s call).1, (step s call).2.ahead d) := by
        cases call with
        | tic => exact tic_ahead s d
        | complete => exact absurd rfl hcalls.1
        | reset => exact reset_ahead s d
      obtain ⟨hanswers, hafter⟩ := ih (step s call).2 hcalls.2
      rw [answers, after, hstep]
      exact ⟨congrArg _ hanswers, hafter⟩

/-- Only `complete` completes. -/
theorem run_not_complete {s : ActivityIndicator} (hs : s.m_is_complete = false) {calls : List Call}
    (hcalls : Call.complete ∉ calls) : (after step s calls).m_is_complete = false := by
  induction calls generalizing s with
  | nil => exact hs
  | cons call calls ih =>
      rw [List.mem_cons, not_or] at hcalls
      refine ih ?_ hcalls.2
      cases call with
      | tic => simp [step, tic, hs]
      | complete => exact absurd rfl hcalls.1
      | reset => simp [step, reset, hs]

theorem complete_notMem_tics (k : ℕ) : Call.complete ∉ List.replicate k .tic := by
  intro hmem
  exact absurd (List.eq_of_mem_replicate hmem) (by decide)

/-! ## After `reset` -/

/-- What `reset` leaves of an indicator. -/
def forget (s : ActivityIndicator) : ActivityIndicator :=
  { s with m_cycle_iteration := 0, m_iteration := 0 }

theorem forget_tic {s : ActivityIndicator} (hs : s.m_is_complete = false) :
    s.tic.2.forget = s.forget.ahead 1 := by
  simp [tic, forget, ahead, hs]

theorem forget_tics {s : ActivityIndicator} (hs : s.m_is_complete = false) (k : ℕ) :
    (after step s (List.replicate k .tic)).forget = s.forget.ahead (BitVec.ofNat 32 k) := by
  induction k with
  | zero => exact (ahead_zero s.forget).symm
  | succ k ih =>
      have hopen := run_not_complete hs (complete_notMem_tics k)
      rw [List.replicate_succ', after_append]
      show (after step s (List.replicate k .tic)).tic.2.forget = _
      rw [forget_tic hopen, ih, ahead_ahead, BitVec.ofNat_add]
      rfl

theorem reset_complete {s : ActivityIndicator} (hs : s.m_is_complete = false) :
    s.complete.2.reset.2 = s.forget := by
  simp [complete, reset, forget, hs]

theorem after_history (c L : Unsigned) (k : ℕ) :
    after step (fresh c L) (List.replicate k .tic ++ [.complete, .reset]) =
      (fresh c L).ahead (BitVec.ofNat 32 k) := by
  rw [after_append]
  show (after step (fresh c L) (List.replicate k .tic)).complete.2.reset.2 = _
  rw [reset_complete (run_not_complete rfl (complete_notMem_tics k)), forget_tics rfl]
  rfl

/-! ## The first `complete` -/

theorem showUnsigned_inj {m n : Unsigned} : showUnsigned m = showUnsigned n ↔ m = n := by
  constructor
  · intro heq
    apply BitVec.eq_of_toNat_eq
    rw [← Nat.ofDigitChars_ten_toDigits (n := m.toNat),
      ← Nat.ofDigitChars_ten_toDigits (n := n.toNat)]
    exact congrArg (Nat.ofDigitChars 10 · 0) heq
  · rintro rfl
    rfl

/-- The text of a run that starts with `complete`, up to and beyond its first
newline. -/
theorem written_from_complete {s : ActivityIndicator} (hs : s.m_is_complete = false)
    (calls : List Call) :
    written (answers step s (.complete :: calls)) =
      (if s.m_iteration < 2 then [] else [s.m_tic]) ++ totalText ++
        (showUnsigned s.m_cycles ++ '\n' :: written (answers step s.complete.2 calls)) := by
  have hanswer : s.complete.1 = .ok ((if s.m_iteration < 2 then [] else [s.m_tic]) ++ totalText ++
      showUnsigned s.m_cycles ++ ['\n']) := by
    simp [complete, hs]
  show written ([s.complete.1] ++ answers step s.complete.2 calls) = _
  rw [written_append, hanswer]
  simp [written]

/-- The number `complete` prints tells two counts apart, whatever follows it. -/
theorem ahead_of_written_complete {s : ActivityIndicator} (hs : s.m_is_complete = false)
    {d : Unsigned} {calls : List Call}
    (heq : written (answers step (s.ahead d) (.complete :: calls)) =
      written (answers step s (.complete :: calls))) : d = 0 := by
  have hdigits : ∀ n : Unsigned, '\n' ∉ showUnsigned n := by
    intro n
    exact notMem_toDigits (by decide) n.toNat
  have hcycles : s.m_cycles + d = s.m_cycles := by
    rw [written_from_complete hs, written_from_complete (s := s.ahead d) hs] at heq
    have hlines := congrArg (List.splitOn '\n') (List.append_cancel_left heq)
    rw [List.splitOn_append_cons_self_of_not_mem (hdigits _),
      List.splitOn_append_cons_self_of_not_mem (hdigits _)] at hlines
    exact showUnsigned_inj.mp (List.cons.inj hlines).1
  bv_omega

/-- **What `reset` restores.** After a history of `k` cycles the indicator does
as a fresh one does exactly when the count has wrapped to zero or is not
printed. -/
theorem reset_restores_iff (c L : Unsigned) (k : ℕ) (calls : List Call) :
    let renewed := after step (fresh c L) (List.replicate k .tic ++ [.complete, .reset])
    (written (answers step renewed calls) = written (answers step (fresh c L) calls) ∧
      thrown (answers step renewed calls) = thrown (answers step (fresh c L) calls)) ↔
    (2 ^ 32 ∣ k ∨ Call.complete ∉ calls) := by
  intro renewed
  have hrenewed : renewed = (fresh c L).ahead (BitVec.ofNat 32 k) := after_history c L k
  have hwrap : BitVec.ofNat 32 k = 0 ↔ 2 ^ 32 ∣ k := by
    rw [← BitVec.toNat_inj, BitVec.toNat_ofNat, Nat.dvd_iff_mod_eq_zero]
    rfl
  rw [hrenewed, ← hwrap]
  constructor
  · rintro ⟨hwritten, -⟩
    by_contra hnot
    rw [not_or, not_not] at hnot
    -- up to the first `complete` the two runs agree
    obtain ⟨before, rest, rfl, hbefore⟩ := List.eq_append_cons_of_mem hnot.2
    obtain ⟨hanswers, hafter⟩ := run_ahead (fresh c L) (BitVec.ofNat 32 k) hbefore
    rw [answers_append, answers_append, hanswers, hafter, written_append, written_append]
      at hwritten
    have hnext := List.append_cancel_left hwritten
    exact hnot.1 (ahead_of_written_complete (run_not_complete rfl hbefore) hnext)
  · rintro (hzero | hcalls)
    · rw [hzero, ahead_zero]
      exact ⟨rfl, rfl⟩
    · rw [(run_ahead (fresh c L) _ hcalls).1]
      exact ⟨rfl, rfl⟩

/-- A second run of one cycle is said to have had two. -/
theorem reset_keeps_cycles :
    let renewed := after step (fresh 1 72) [.tic, .complete, .reset]
    written (answers step renewed [.tic, .complete]) ≠
      written (answers step (fresh 1 72) [.tic, .complete]) := by
  decide

end PipelineBench.Utility.ActivityIndicator
