import Mathlib.Data.List.Count
import Mathlib.Data.List.Infix
import PipelineBench.Foundation.DeltaCycle

/-!
# The turns of a process

What the state owes to the turns of one process, counted along a run: a relation
that composes with the number of turns. A log the process extends by one entry
at most in a turn, and that is evaluated at most once in a delta cycle, only
grows, so what it holds at any time is the beginning of what it holds later. A
process that time alone wakes has one turn each time it moves on.
-/

namespace PipelineBench.DeltaCycle

variable {ε σ ι α : Type*} [BEq ι]

namespace Kernel

/-- `Owes k s s'`: `k` turns of process `p` may take `s` to `s'`, as far as the
relation looks. `Fit` is what a turn needs; it holds in the middle of a delta
cycle too. -/
structure Turns (K : Kernel ε σ ι) (p : ι) (Fit : σ → Prop) (Owes : ℕ → σ → σ → Prop) :
    Prop where
  refl : ∀ s, Owes 0 s s
  trans : ∀ {a b s t u}, Owes a s t → Owes b t u → Owes (a + b) s u
  evaluate : ∀ {s s' i}, Fit s → K.evaluate s i = .ok s' → Fit s' ∧ Owes ([i].count p) s s'
  enter : ∀ {s}, Fit s → Fit (K.enter s) ∧ Owes 0 s (K.enter s)
  update : ∀ {s}, Fit s → Fit (K.update s) ∧ Owes 0 s (K.update s)
  advance : ∀ {s}, Fit s → Fit (K.advance s) ∧ Owes 0 s (K.advance s)

variable {K : Kernel ε σ ι} {p : ι} {Fit : σ → Prop} {Owes : ℕ → σ → σ → Prop}

theorem Turns.foldlM (h : K.Turns p Fit Owes) {l : List ι} {s s' : σ} (hs : Fit s)
    (hfold : l.foldlM K.evaluate s = .ok s') : Fit s' ∧ Owes (l.count p) s s' := by
  induction l generalizing s with
  | nil =>
      obtain rfl : s = s' := Except.ok.inj hfold
      exact ⟨hs, h.refl s⟩
  | cons i l ih =>
      obtain ⟨t, hi, hrest⟩ := evaluate_cons_ok hfold
      obtain ⟨ht, hone⟩ := h.evaluate hs hi
      obtain ⟨hs', hmore⟩ := ih ht hrest
      refine ⟨hs', ?_⟩
      rw [← List.singleton_append, List.count_append]
      exact h.trans hone hmore

/-- A step is worth the turns that were due. -/
theorem Turns.step (h : K.Turns p Fit Owes) {order : List ι → List ι}
    (hperm : ∀ l, (order l).Perm l) {s s' : σ} (hs : Fit s) (hstep : K.step order s = .ok s') :
    Fit s' ∧ Owes ((K.runnable s).count p) s s' := by
  rcases step_cases hstep with ⟨hr, rfl⟩ | ⟨-, t, hfold, rfl⟩
  · rw [hr]
    exact h.advance hs
  · obtain ⟨hs₀, henter⟩ := h.enter hs
    obtain ⟨ht, hturns⟩ := h.foldlM hs₀ hfold
    obtain ⟨hs', hupdate⟩ := h.update ht
    rw [(hperm (K.runnable s)).count_eq] at hturns
    have hall := h.trans (h.trans henter hturns) hupdate
    rw [Nat.zero_add, Nat.add_zero] at hall
    exact ⟨hs', hall⟩

/-! ## A process that time wakes -/

/-- The count has gone up by `k`. -/
def Raises (turns : σ → ℕ) (k : ℕ) (s s' : σ) : Prop := turns s' = turns s + k

variable {turns : σ → ℕ}

theorem Raises.trans {a b : ℕ} {s t u : σ} (h : Raises turns a s t) (h' : Raises turns b t u) :
    Raises turns (a + b) s u := by
  rw [Raises] at h h' ⊢
  rw [h', h, Nat.add_assoc]

/-- `turns` counts the turns of process `p`; no update makes it runnable, and time
does once it has had a turn. -/
structure Woken (K : Kernel ε σ ι) (p : ι) (Fit : σ → Prop) (turns : σ → ℕ) : Prop where
  counted : K.Turns p Fit (Raises turns)
  update : ∀ s, (K.runnable (K.update s)).count p = 0
  advance : ∀ {s}, Fit s → 1 ≤ turns s → (K.runnable (K.advance s)).count p = 1

/-- Its turns, and the one that is due, are one more than the edges. -/
theorem Woken.run (h : K.Woken p Fit turns) {sched : Schedule ι} {s s' : σ} {n : ℕ} (hs : Fit s)
    (hfirst : turns s + (K.runnable s).count p = 1) (hrun : K.run sched s n = .ok s') :
    Fit s' ∧ turns s' + (K.runnable s').count p = K.edges sched s n + 1 := by
  induction n generalizing s' with
  | zero =>
      obtain rfl : s = s' := Except.ok.inj hrun
      exact ⟨hs, hfirst⟩
  | succ n ih =>
      obtain ⟨t, hn, hstep⟩ := run_succ_ok hrun
      obtain ⟨hfit, hcount⟩ := ih hn
      obtain ⟨hfit', hturns⟩ := h.counted.step (sched.perm n) hfit hstep
      refine ⟨hfit', ?_⟩
      rw [Raises] at hturns
      rcases step_cases hstep with ⟨hidle, rfl⟩ | ⟨hbusy, u, -, rfl⟩
      · -- nothing was due, so it has had its turn and is woken again
        rw [hidle, List.count_nil, Nat.add_zero] at hcount hturns
        have hwoken := h.advance hfit (by omega)
        rw [edges_of_idle hn hidle, hturns, hwoken, hcount]
      · rw [edges_of_busy hn hbusy, hturns, h.update u, Nat.add_zero, hcount]

/-! ## A log with one entry a turn -/

/-- The log has grown by `k` entries at most. -/
def Appends (log : σ → List α) (k : ℕ) (s s' : σ) : Prop :=
  ∃ more, log s' = log s ++ more ∧ more.length ≤ k

variable {log : σ → List α}

theorem Appends.of_eq {s s' : σ} (h : log s' = log s) (k : ℕ) : Appends log k s s' :=
  ⟨[], by rw [h, List.append_nil], Nat.zero_le k⟩

theorem Appends.mono {j k : ℕ} {s s' : σ} (h : Appends log j s s') (hjk : j ≤ k) :
    Appends log k s s' := by
  obtain ⟨more, hmore, hlen⟩ := h
  exact ⟨more, hmore, hlen.trans hjk⟩

theorem Appends.trans {a b : ℕ} {s t u : σ} (h : Appends log a s t) (h' : Appends log b t u) :
    Appends log (a + b) s u := by
  obtain ⟨one, hone, hlen⟩ := h
  obtain ⟨more, hmore, hlen'⟩ := h'
  refine ⟨one ++ more, ?_, ?_⟩
  · rw [hmore, hone, List.append_assoc]
  · rw [List.length_append]
    exact Nat.add_le_add hlen hlen'

/-- Process `p` keeps the log and is due at most once. -/
structure Logs (K : Kernel ε σ ι) (p : ι) (Fit : σ → Prop) (log : σ → List α) : Prop where
  turns : K.Turns p Fit (Appends log)
  once_update : ∀ s, (K.runnable (K.update s)).count p ≤ 1
  once_advance : ∀ s, (K.runnable (K.advance s)).count p ≤ 1

/-- Between two steps. -/
def Ready (K : Kernel ε σ ι) (p : ι) (Fit : σ → Prop) (s : σ) : Prop :=
  Fit s ∧ (K.runnable s).count p ≤ 1

theorem Logs.step (h : K.Logs p Fit log) {order : List ι → List ι}
    (hperm : ∀ l, (order l).Perm l) {s s' : σ} (hs : Ready K p Fit s)
    (hstep : K.step order s = .ok s') : Ready K p Fit s' ∧ Appends log 1 s s' := by
  obtain ⟨hfit, hcount⟩ := hs
  obtain ⟨hfit', hmore⟩ := h.turns.step hperm hfit hstep
  refine ⟨⟨hfit', ?_⟩, hmore.mono hcount⟩
  rcases step_cases hstep with ⟨-, rfl⟩ | ⟨-, t, -, rfl⟩
  · exact h.once_advance s
  · exact h.once_update t

theorem Logs.run (h : K.Logs p Fit log) {sched : Schedule ι} {s s' : σ} {n : ℕ}
    (hs : Ready K p Fit s) (hrun : K.run sched s n = .ok s') :
    Ready K p Fit s' ∧ Appends log n s s' := by
  induction n generalizing s' with
  | zero =>
      obtain rfl : s = s' := Except.ok.inj hrun
      exact ⟨hs, .of_eq rfl 0⟩
  | succ n ih =>
      obtain ⟨t, hn, hstep⟩ := run_succ_ok hrun
      obtain ⟨ht, hmore⟩ := ih hn
      obtain ⟨hs', hone⟩ := h.step (sched.perm n) ht hstep
      exact ⟨hs', hmore.trans hone⟩

/-- What the log holds is the beginning of any longer log of the run. -/
theorem Logs.prefix_of_length (h : K.Logs p Fit log) {sched : Schedule ι} {s s₁ s₂ : σ} {m n : ℕ}
    (hs : Ready K p Fit s) (hm : K.run sched s m = .ok s₁) (hn : K.run sched s n = .ok s₂)
    (hlen : (log s₁).length ≤ (log s₂).length) : log s₁ <+: log s₂ := by
  have hgrows : ∀ {i j : ℕ} {t u : σ}, i ≤ j → K.run sched s i = .ok t →
      K.run sched s j = .ok u → log t <+: log u := by
    intro i j t u hij ht hu
    obtain ⟨d, rfl⟩ := Nat.exists_eq_add_of_le hij
    rw [run_add, ht] at hu
    obtain ⟨-, more, hmore, -⟩ := h.run (h.run hs ht).1 hu
    exact ⟨more, hmore.symm⟩
  rcases Nat.le_total m n with hmn | hnm
  · exact hgrows hmn hm hn
  · -- the later log is no longer, so it is the same one
    have hpre := hgrows hnm hn hm
    rw [hpre.eq_of_length_le hlen]

end Kernel

end PipelineBench.DeltaCycle
