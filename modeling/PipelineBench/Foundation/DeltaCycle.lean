import Mathlib.Data.List.Perm.Basic
import Mathlib.Order.Monotone.Basic
import Mathlib.Tactic.Common

/-!
# Evaluate-update kernels

A discrete-event kernel evaluates the runnable processes of a delta cycle in an
order of its own choice, then updates; when none is runnable, time moves on. Each
of the two is a step. The processes are those of a model: a delta cycle in which
only others run, such as the ones of a clock generator, is no step.

`Confluent` collects what makes the choice unobservable: evaluations succeed and
commute while some are still due. Then all schedules give one run, and an
invariant of that run.
-/

namespace PipelineBench.DeltaCycle

variable {ε σ ι : Type*}

structure Kernel (ε σ ι : Type*) where
  runnable : σ → List ι
  /-- start of the evaluation phase -/
  enter : σ → σ
  evaluate : σ → ι → Except ε σ
  /-- the update phase -/
  update : σ → σ
  /-- nothing is runnable: time moves to the next event -/
  advance : σ → σ

/-- A choice, in every delta cycle, of the order of evaluation. -/
structure Schedule (ι : Type*) where
  order : ℕ → List ι → List ι
  perm : ∀ n l, (order n l).Perm l

/-- The schedule from delta cycle `m` on. -/
def Schedule.shift (sched : Schedule ι) (m : ℕ) : Schedule ι where
  order n := sched.order (m + n)
  perm n := sched.perm (m + n)

namespace Kernel

variable (K : Kernel ε σ ι)

def step (order : List ι → List ι) (s : σ) : Except ε σ :=
  match K.runnable s with
  | [] => .ok (K.advance s)
  | i :: l => ((order (i :: l)).foldlM K.evaluate (K.enter s)).map K.update

/-- The state after `n` steps. -/
def run (sched : Schedule ι) (s : σ) : ℕ → Except ε σ
  | 0 => .ok s
  | n + 1 => (run sched s n).bind (K.step (sched.order n))

/-- What makes the order of evaluation unobservable. `Due l s` describes a state
in the middle of a delta cycle with the processes of `l` still to be evaluated. -/
structure Confluent (Inv : σ → Prop) (Due : List ι → σ → Prop) : Prop where
  enter : ∀ {s}, Inv s → Due (K.runnable s) (K.enter s)
  perm : ∀ {s l l'}, l.Perm l' → Due l s → Due l' s
  evaluate : ∀ {s i l}, Due (i :: l) s → ∃ s', K.evaluate s i = .ok s' ∧ Due l s'
  commute : ∀ {s i j l}, Due (i :: j :: l) s →
    (K.evaluate s i).bind (K.evaluate · j) = (K.evaluate s j).bind (K.evaluate · i)
  update : ∀ {s}, Due [] s → Inv (K.update s)
  advance : ∀ {s}, K.runnable s = [] → Inv s → Inv (K.advance s)

variable {K} {Inv : σ → Prop} {Due : List ι → σ → Prop}

/-- One evaluation phase succeeds, whatever is due. -/
theorem Confluent.evaluate_all (h : K.Confluent Inv Due) {l : List ι} {s : σ} (hs : Due l s) :
    ∃ s', l.foldlM K.evaluate s = .ok s' ∧ Due [] s' := by
  induction l generalizing s with
  | nil => exact ⟨s, rfl, hs⟩
  | cons i l ih =>
      obtain ⟨s', heval, hs'⟩ := h.evaluate hs
      obtain ⟨s'', hfold, hs''⟩ := ih hs'
      refine ⟨s'', ?_, hs''⟩
      rw [List.foldlM_cons, heval]
      exact hfold

/-- Any two orders of one evaluation phase give the same state. The induction is
on the permutation: only an exchange of neighbours needs commutation. -/
theorem Confluent.evaluate_perm (h : K.Confluent Inv Due) {l l' : List ι} (hp : l.Perm l')
    {s : σ} (hs : Due l s) : l.foldlM K.evaluate s = l'.foldlM K.evaluate s := by
  induction hp generalizing s with
  | nil => rfl
  | cons i _ ih =>
      obtain ⟨s', heval, hs'⟩ := h.evaluate hs
      rw [List.foldlM_cons, List.foldlM_cons, heval]
      exact ih hs'
  | swap i j l =>
      have hcomm := h.commute hs
      simp only [List.foldlM_cons, ← bind_assoc]
      exact congrArg (fun r => r.bind (l.foldlM K.evaluate ·)) hcomm
  | trans hp₁ _ ih₁ ih₂ => exact (ih₁ hs).trans (ih₂ (h.perm hp₁ hs))

theorem Confluent.step (h : K.Confluent Inv Due) {s : σ} (hs : Inv s) :
    ∃ s', Inv s' ∧ ∀ order : List ι → List ι, (∀ l, (order l).Perm l) →
      K.step order s = .ok s' := by
  cases hr : K.runnable s with
  | nil =>
      refine ⟨K.advance s, h.advance hr hs, fun order _ => ?_⟩
      rw [Kernel.step, hr]
  | cons i l =>
      have hdue := h.enter hs
      rw [hr] at hdue
      obtain ⟨s', hfold, hs'⟩ := h.evaluate_all hdue
      refine ⟨K.update s', h.update hs', fun order hperm => ?_⟩
      rw [Kernel.step, hr]
      simp only
      rw [← h.evaluate_perm (hperm (i :: l)).symm hdue, hfold]
      rfl

/-- All schedules give one run, and the invariant holds of it. -/
theorem Confluent.run (h : K.Confluent Inv Due) {s : σ} (hs : Inv s) (n : ℕ) :
    ∃ s', Inv s' ∧ ∀ sched, K.run sched s n = .ok s' := by
  induction n with
  | zero => exact ⟨s, hs, fun _ => rfl⟩
  | succ n ih =>
      obtain ⟨s', hs', hrun⟩ := ih
      obtain ⟨s'', hs'', hstep⟩ := h.step hs'
      refine ⟨s'', hs'', fun sched => ?_⟩
      rw [Kernel.run, hrun sched]
      exact hstep (sched.order n) (sched.perm n)

/-! ## Runs end to end -/

theorem run_add (sched : Schedule ι) (s : σ) (m n : ℕ) :
    K.run sched s (m + n) = (K.run sched s m).bind fun s' => K.run (sched.shift m) s' n := by
  induction n with
  | zero =>
      show K.run sched s m = _
      cases K.run sched s m <;> rfl
  | succ n ih =>
      rw [← Nat.add_assoc, Kernel.run, ih]
      cases K.run sched s m <;> rfl

/-- Every schedule takes `s` to `s'` in some number of steps. -/
def Leads (K : Kernel ε σ ι) (s s' : σ) : Prop :=
  ∃ n, ∀ sched, K.run sched s n = .ok s'

theorem Leads.refl (s : σ) : Leads K s s := ⟨0, fun _ => rfl⟩

theorem Leads.trans {s s' s'' : σ} (h : Leads K s s') (h' : Leads K s' s'') :
    Leads K s s'' := by
  rcases h with ⟨m, hm⟩
  rcases h' with ⟨n, hn⟩
  refine ⟨m + n, ?_⟩
  intro sched
  rw [run_add, hm sched]
  exact hn (sched.shift m)

/-- The order that happens to be convenient speaks for all. -/
theorem Confluent.leads (h : K.Confluent Inv Due) {s s' : σ} (hs : Inv s)
    (hstep : K.step id s = .ok s') : Leads K s s' ∧ Inv s' := by
  rcases h.step hs with ⟨t, ht, hall⟩
  have heq : s' = t := by
    have hid := hall id fun l => List.Perm.refl l
    rw [hstep] at hid
    exact Except.ok.inj hid
  subst heq
  refine ⟨⟨1, ?_⟩, ht⟩
  intro sched
  exact hall (sched.order 0) (sched.perm 0)

theorem step_of_busy {s : σ} (h : K.runnable s ≠ []) :
    K.step id s = ((K.runnable s).foldlM K.evaluate (K.enter s)).map K.update := by
  cases hr : K.runnable s with
  | nil => exact absurd hr h
  | cons i l =>
      rw [step, hr]
      rfl

/-- What a step can have done. -/
theorem step_cases {order : List ι → List ι} {s s' : σ} (h : K.step order s = .ok s') :
    (K.runnable s = [] ∧ s' = K.advance s) ∨
      (K.runnable s ≠ [] ∧ ∃ t, (order (K.runnable s)).foldlM K.evaluate (K.enter s) = .ok t ∧
        s' = K.update t) := by
  cases hr : K.runnable s with
  | nil =>
      rw [step, hr, Except.ok.injEq] at h
      exact Or.inl ⟨rfl, h.symm⟩
  | cons i l =>
      refine Or.inr ⟨List.cons_ne_nil i l, ?_⟩
      rw [step, hr] at h
      simp only at h
      cases hfold : (order (i :: l)).foldlM K.evaluate (K.enter s) with
      | error e =>
          rw [hfold] at h
          cases h
      | ok t =>
          rw [hfold] at h
          exact ⟨t, rfl, (Except.ok.inj h).symm⟩

theorem evaluate_cons_ok {i : ι} {l : List ι} {s s' : σ}
    (h : (i :: l).foldlM K.evaluate s = .ok s') :
    ∃ t, K.evaluate s i = .ok t ∧ l.foldlM K.evaluate t = .ok s' := by
  rw [List.foldlM_cons] at h
  cases hi : K.evaluate s i with
  | error e =>
      rw [hi] at h
      cases h
  | ok t =>
      rw [hi] at h
      exact ⟨t, rfl, h⟩

theorem run_succ_ok {sched : Schedule ι} {s s' : σ} {n : ℕ} (h : K.run sched s (n + 1) = .ok s') :
    ∃ t, K.run sched s n = .ok t ∧ K.step (sched.order n) t = .ok s' := by
  rw [run] at h
  cases hn : K.run sched s n with
  | error e =>
      rw [hn] at h
      cases h
  | ok t =>
      rw [hn] at h
      exact ⟨t, rfl, h⟩

/-- Every schedule takes `s` to `s'` in `n` steps. -/
def LeadsIn (K : Kernel ε σ ι) (n : ℕ) (s s' : σ) : Prop :=
  ∀ sched, K.run sched s n = .ok s'

theorem LeadsIn.trans {m n : ℕ} {s s' s'' : σ} (h : LeadsIn K m s s') (h' : LeadsIn K n s' s'') :
    LeadsIn K (m + n) s s'' := by
  intro sched
  rw [run_add, h sched]
  exact h' (sched.shift m)

theorem Confluent.leadsIn (h : K.Confluent Inv Due) {s s' : σ} (hs : Inv s)
    (hstep : K.step id s = .ok s') : LeadsIn K 1 s s' ∧ Inv s' := by
  obtain ⟨t, ht, hall⟩ := h.step hs
  have hid := hall id fun l => List.Perm.refl l
  rw [hstep, Except.ok.injEq] at hid
  subst hid
  exact ⟨fun sched => hall (sched.order 0) (sched.perm 0), ht⟩

/-- A rank lowered by every delta cycle bounds how many there are before time
moves on. -/
theorem Confluent.settles (h : K.Confluent Inv Due) {P : ℕ → σ → Prop}
    (zero : ∀ s, P 0 s → K.runnable s = [])
    (lower : ∀ j s, Inv s → K.runnable s ≠ [] → P (j + 1) s →
      ∃ s', K.step id s = .ok s' ∧ P j s') :
    ∀ (j : ℕ) (s : σ), Inv s → P j s →
      ∃ m s', m ≤ j ∧ LeadsIn K m s s' ∧ Inv s' ∧ K.runnable s' = [] ∧ ∃ i, P i s' := by
  intro j
  induction j with
  | zero => exact fun s hs hP => ⟨0, s, Nat.le_refl 0, fun _ => rfl, hs, zero s hP, 0, hP⟩
  | succ j ih =>
      intro s hs hP
      by_cases hidle : K.runnable s = []
      · exact ⟨0, s, Nat.zero_le _, fun _ => rfl, hs, hidle, j + 1, hP⟩
      · obtain ⟨s₁, hstep, hP₁⟩ := lower j s hs hidle hP
        obtain ⟨hone, hs₁⟩ := h.leadsIn hs hstep
        obtain ⟨m, s', hm, hleads, hs', hidle', hi⟩ := ih s₁ hs₁ hP₁
        exact ⟨1 + m, s', by omega, hone.trans hleads, hs', hidle', hi⟩

/-! ## The passing of time -/

/-- How often time has moved on in the first `n` steps. -/
def edges (K : Kernel ε σ ι) (sched : Schedule ι) (s : σ) : ℕ → ℕ
  | 0 => 0
  | n + 1 =>
      match K.run sched s n with
      | .error _ => edges K sched s n
      | .ok t => edges K sched s n + if (K.runnable t).isEmpty then 1 else 0

theorem edges_of_idle {sched : Schedule ι} {s t : σ} {n : ℕ} (hrun : K.run sched s n = .ok t)
    (hidle : K.runnable t = []) : K.edges sched s (n + 1) = K.edges sched s n + 1 := by
  rw [edges, hrun]
  simp only
  rw [hidle]
  rfl

theorem edges_of_busy {sched : Schedule ι} {s t : σ} {n : ℕ} (hrun : K.run sched s n = .ok t)
    (hbusy : K.runnable t ≠ []) : K.edges sched s (n + 1) = K.edges sched s n := by
  rw [edges, hrun]
  simp [hbusy]

theorem edges_mono (sched : Schedule ι) (s : σ) : Monotone (K.edges sched s) := by
  apply monotone_nat_of_le_succ
  intro n
  rw [edges]
  split
  · exact Nat.le_refl _
  · exact Nat.le_add_right _ _

/-- Time passes every bound if a rest is always reached. -/
theorem Confluent.time_moves (h : K.Confluent Inv Due)
    (rest : ∀ {s}, Inv s → ∃ s', Leads K s s' ∧ Inv s' ∧ K.runnable s' = []) {s : σ} (hs : Inv s)
    (k : ℕ) : ∃ n, ∀ sched, k ≤ K.edges sched s n := by
  induction k with
  | zero => exact ⟨0, fun _ => Nat.zero_le _⟩
  | succ k ih =>
      obtain ⟨n, hn⟩ := ih
      obtain ⟨t, ht, hrun⟩ := h.run hs n
      obtain ⟨t', ⟨m, hrest⟩, -, hidle⟩ := rest ht
      refine ⟨n + m + 1, fun sched => ?_⟩
      have hlast : K.run sched s (n + m) = .ok t' := by
        rw [run_add, hrun sched]
        exact hrest (sched.shift n)
      rw [edges_of_idle hlast hidle]
      exact Nat.succ_le_succ (Nat.le_trans (hn sched) (edges_mono sched s (Nat.le_add_right n m)))

/-! ## Processes that write apart -/

variable (K)

/-- What a process does is computed from the state the phase is entered in, and
no two processes write the same place. -/
structure Apart (Inv : σ → Prop) (effect : σ → ι → σ → σ) : Prop where
  nodup : ∀ {s}, Inv s → (K.runnable s).Nodup
  evaluate : ∀ {s i} {d : List ι}, Inv s → i ∈ K.runnable s → i ∉ d →
    K.evaluate (d.foldr (effect s) (K.enter s)) i =
      .ok (effect s i (d.foldr (effect s) (K.enter s)))
  comm : ∀ s i j t, effect s i (effect s j t) = effect s j (effect s i t)
  update : ∀ {s}, Inv s → Inv (K.update ((K.runnable s).foldr (effect s) (K.enter s)))
  advance : ∀ {s}, K.runnable s = [] → Inv s → Inv (K.advance s)

variable {K} {effect : σ → ι → σ → σ}

/-- In the middle of a phase the processes no longer due have had their effects. -/
theorem Apart.confluent (h : K.Apart Inv effect) :
    K.Confluent Inv fun due s => ∃ s₀ done, Inv s₀ ∧ (done ++ due).Perm (K.runnable s₀) ∧
      s = done.foldr (effect s₀) (K.enter s₀) where
  enter := fun {s} hs => ⟨s, [], hs, List.Perm.refl _, rfl⟩
  perm := by
    rintro s l l' hp ⟨s₀, done, hs₀, hall, rfl⟩
    exact ⟨s₀, done, hs₀, (hp.symm.append_left done).trans hall, rfl⟩
  evaluate := by
    rintro s i l ⟨s₀, done, hs₀, hall, rfl⟩
    have hnodup : (done ++ i :: l).Nodup := hall.nodup_iff.mpr (h.nodup hs₀)
    have hmem : i ∈ K.runnable s₀ := hall.mem_iff.mp (by simp)
    have hdone : i ∉ done := fun hi => (List.nodup_append.mp hnodup).2.2 i hi i (by simp) rfl
    refine ⟨_, h.evaluate hs₀ hmem hdone, s₀, i :: done, hs₀, ?_, rfl⟩
    exact List.perm_middle.symm.trans hall
  commute := by
    rintro s i j l ⟨s₀, done, hs₀, hall, rfl⟩
    have hnodup : (done ++ i :: j :: l).Nodup := hall.nodup_iff.mpr (h.nodup hs₀)
    have hi : i ∈ K.runnable s₀ := hall.mem_iff.mp (by simp)
    have hj : j ∈ K.runnable s₀ := hall.mem_iff.mp (by simp)
    have hne : i ≠ j := by
      have htail := (List.nodup_append.mp hnodup).2.1
      rintro rfl
      exact (List.nodup_cons.mp htail).1 (List.mem_cons_self ..)
    have hi' : i ∉ done := fun hm => (List.nodup_append.mp hnodup).2.2 i hm i (by simp) rfl
    have hj' : j ∉ done := fun hm => (List.nodup_append.mp hnodup).2.2 j hm j (by simp) rfl
    have hij := h.evaluate (d := i :: done) hs₀ hj
      (by simpa using ⟨Ne.symm hne, hj'⟩)
    have hji := h.evaluate (d := j :: done) hs₀ hi (by simpa using ⟨hne, hi'⟩)
    rw [h.evaluate hs₀ hi hi', h.evaluate hs₀ hj hj']
    show K.evaluate _ j = K.evaluate _ i
    rw [List.foldr_cons] at hij hji
    rw [hij, hji, h.comm]
  update := by
    rintro s ⟨s₀, done, hs₀, hall, rfl⟩
    rw [List.append_nil] at hall
    rw [hall.foldr_eq' fun i _ j _ t => h.comm s₀ j i t]
    exact h.update hs₀
  advance := h.advance

/-- One evaluation phase has the effects of all that was runnable. -/
theorem Apart.leadsIn (h : K.Apart Inv effect) {s : σ} (hs : Inv s) (hbusy : K.runnable s ≠ []) :
    LeadsIn K 1 s (K.update ((K.runnable s).foldr (effect s) (K.enter s))) := by
  have hfold : ∀ l done : List ι, (done ++ l).Perm (K.runnable s) →
      l.foldlM K.evaluate (done.foldr (effect s) (K.enter s)) =
        .ok ((l.reverse ++ done).foldr (effect s) (K.enter s)) := by
    intro l
    induction l with
    | nil => exact fun done _ => rfl
    | cons i l ih =>
        intro done hall
        have hnodup : (done ++ i :: l).Nodup := hall.nodup_iff.mpr (h.nodup hs)
        have hdone : i ∉ done := fun hi => (List.nodup_append.mp hnodup).2.2 i hi i (by simp) rfl
        have hrest := ih (i :: done) (List.perm_middle.symm.trans hall)
        rw [List.foldlM_cons, h.evaluate hs (hall.mem_iff.mp (by simp)) hdone,
          List.reverse_cons, List.append_assoc]
        exact hrest
  have hstep : K.step id s = .ok (K.update ((K.runnable s).foldr (effect s) (K.enter s))) := by
    rw [step_of_busy hbusy, show K.enter s = List.foldr (effect s) (K.enter s) [] from rfl,
      hfold (K.runnable s) [] (List.Perm.refl _), List.append_nil,
      (List.reverse_perm _).foldr_eq' fun i _ j _ t => h.comm s j i t]
    rfl
  exact (h.confluent.leadsIn hs hstep).1

/-- Time moves on when nothing is runnable. -/
theorem Confluent.leadsIn_advance (h : K.Confluent Inv Due) {s : σ} (hs : Inv s)
    (hidle : K.runnable s = []) : LeadsIn K 1 s (K.advance s) := by
  refine (h.leadsIn hs ?_).1
  rw [Kernel.step, hidle]

end Kernel

end PipelineBench.DeltaCycle
