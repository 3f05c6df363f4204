import Mathlib.Data.List.Count
import PipelineBench.Foundation.DeltaCycle

/-!
# Observers of a kernel

A process that only looks: it sees a part of the state that no evaluation
changes, and keeps what it makes of it to itself. Such a process beside a kernel
disturbs nothing. If the kernel has one of its own that is woken at the same
times, the two stay alike, whatever the schedule.
-/

namespace PipelineBench.DeltaCycle

variable {ε σ ι υ τ : Type*}

/-- What an observer makes of what it sees when it is woken, and whether it
waits for time to move on. -/
structure Observer (ε υ τ : Type*) where
  observe : υ → τ → Except ε τ
  listens : τ → Bool

/-- The state of a kernel with an observer beside it. -/
structure Observed (σ τ : Type*) where
  system : σ
  observer : τ
  due : Bool

namespace Kernel

/-- The kernel with the observer as one more process, `none`. -/
def observed (K : Kernel ε σ ι) (seen : σ → υ) (O : Observer ε υ τ) :
    Kernel ε (Observed σ τ) (Option ι) where
  runnable s := (K.runnable s.system).map some ++ if s.due then [none] else []
  enter s := { s with system := K.enter s.system, due := false }
  evaluate s
    | some i => (K.evaluate s.system i).map fun system => { s with system }
    | none => (O.observe (seen s.system) s.observer).map fun observer => { s with observer }
  update s := { s with system := K.update s.system }
  advance s := { s with system := K.advance s.system, due := O.listens s.observer }

/-- The first schedule there is. -/
def inOrder : Schedule ι := ⟨fun _ l => l, fun _ l => List.Perm.refl l⟩

variable {K : Kernel ε σ ι} {seen : σ → υ} {O : Observer ε υ τ}
variable {Inv : σ → Prop} {Due : List ι → σ → Prop} {Fit : τ → Prop}

/-- No evaluation changes what is seen. -/
def Unseen (K : Kernel ε σ ι) (seen : σ → υ) : Prop :=
  ∀ {s s' i}, K.evaluate s i = .ok s' → seen s' = seen s

/-- An observer that fits its task always finishes it. -/
def Tireless (O : Observer ε υ τ) (Fit : τ → Prop) : Prop :=
  ∀ v t, Fit t → ∃ t', O.observe v t = .ok t' ∧ Fit t'

/-! ## An observer disturbs nothing -/

theorem filterMap_runnable (l : List ι) (due : Bool) :
    (l.map some ++ if due then [none] else []).filterMap id = l := by
  cases due <;> simp

theorem Confluent.observed (h : K.Confluent Inv Due) (hseen : Unseen K seen)
    (hfit : Tireless O Fit) :
    (K.observed seen O).Confluent (fun s => Inv s.system ∧ Fit s.observer)
      (fun l s => Due (l.filterMap id) s.system ∧ Fit s.observer) where
  enter := by
    rintro s ⟨hinv, hobs⟩
    refine ⟨?_, hobs⟩
    show Due (List.filterMap id ((K.runnable s.system).map some ++ _)) _
    rw [filterMap_runnable]
    exact h.enter hinv
  perm := by
    rintro s l l' hp ⟨hdue, hobs⟩
    exact ⟨h.perm (hp.filterMap id) hdue, hobs⟩
  evaluate := by
    rintro s (_ | i) l ⟨hdue, hobs⟩
    · rcases hfit (seen s.system) s.observer hobs with ⟨t, ht, hobs'⟩
      exact ⟨{ s with observer := t }, by simp only [Kernel.observed, ht, Except.map], hdue, hobs'⟩
    · rcases h.evaluate (i := i) (l := l.filterMap id) hdue with ⟨s', hs', hdue'⟩
      exact ⟨{ s with system := s' }, by simp only [Kernel.observed, hs', Except.map], hdue', hobs⟩
  commute := by
    rintro s (_ | i) (_ | j) l ⟨hdue, hobs⟩
    · rfl
    · rcases hfit (seen s.system) s.observer hobs with ⟨t, ht, -⟩
      rcases h.evaluate (i := j) (l := l.filterMap id) hdue with ⟨s', hs', -⟩
      simp only [Kernel.observed, ht, hs', hseen hs', Except.map, Except.bind]
    · rcases hfit (seen s.system) s.observer hobs with ⟨t, ht, -⟩
      rcases h.evaluate (i := i) (l := l.filterMap id) hdue with ⟨s', hs', -⟩
      simp only [Kernel.observed, ht, hs', hseen hs', Except.map, Except.bind]
    · have hcomm := h.commute (i := i) (j := j) (l := l.filterMap id) hdue
      have hlift : ∀ a b : ι,
          ((K.evaluate s.system a).map fun system => { s with system }).bind
              (fun s' => (K.evaluate s'.system b).map fun system => { s' with system }) =
            ((K.evaluate s.system a).bind (K.evaluate · b)).map fun system =>
              { s with system } := by
        intro a b
        cases K.evaluate s.system a <;> rfl
      exact (hlift i j).trans ((congrArg _ hcomm).trans (hlift j i).symm)
  update := by
    rintro s ⟨hdue, hobs⟩
    exact ⟨h.update hdue, hobs⟩
  advance := by
    rintro s hidle ⟨hinv, hobs⟩
    have hnil : K.runnable s.system = [] :=
      List.map_eq_nil_iff.mp (List.append_eq_nil_iff.mp hidle).1
    exact ⟨h.advance hnil hinv, hobs⟩

/-- The processes of the kernel do not notice the observer. -/
theorem foldlM_observed (l : List ι) (s : Observed σ τ) :
    (l.map some).foldlM (K.observed seen O).evaluate s =
      (l.foldlM K.evaluate s.system).map fun system => { s with system } := by
  induction l generalizing s with
  | nil => rfl
  | cons i l ih =>
      rw [List.map_cons, List.foldlM_cons, List.foldlM_cons]
      simp only [Kernel.observed]
      cases K.evaluate s.system i with
      | error e => rfl
      | ok s₁ => exact ih { s with system := s₁ }

/-! ## Two observers of one kernel -/

/-- Process `p` of the kernel does to `own` what the observer does to its state;
`R` is what two of them may differ in. -/
structure Twin [BEq ι] (K : Kernel ε σ ι) (seen : σ → υ) (O : Observer ε υ τ) (p : ι)
    (own : σ → τ) (R : τ → τ → Prop) : Prop where
  observe : ∀ {s s'}, K.evaluate s p = .ok s' → O.observe (seen s) (own s) = .ok (own s')
  other : ∀ {s s' i}, i ≠ p → K.evaluate s i = .ok s' → own s' = own s
  enter : ∀ s, own (K.enter s) = own s ∧ seen (K.enter s) = seen s
  update : ∀ s, own (K.update s) = own s ∧ (K.runnable (K.update s)).count p = 0
  advance : ∀ s, own (K.advance s) = own s ∧
    (K.runnable (K.advance s)).count p = if O.listens (own s) then 1 else 0
  alike : ∀ {v t u t'}, R t u → O.observe v t = .ok t' → ∃ u', O.observe v u = .ok u' ∧ R t' u'
  listens : ∀ {t u}, R t u → O.listens t = O.listens u

variable [BEq ι] [LawfulBEq ι] {p : ι} {own : σ → τ} {R : τ → τ → Prop}

/-- One evaluation phase wakes `p` as often as it is due. -/
theorem Twin.foldlM (h : Twin K seen O p own R) (hseen : Unseen K seen) {l : List ι} {s s' : σ}
    (hfold : l.foldlM K.evaluate s = .ok s') :
    seen s' = seen s ∧ (l.count p = 0 → own s' = own s) ∧
      (l.count p = 1 → O.observe (seen s) (own s) = .ok (own s')) := by
  induction l generalizing s with
  | nil =>
      have heq : s = s' := Except.ok.inj hfold
      subst heq
      exact ⟨rfl, fun _ => rfl, fun hone => absurd hone (by simp)⟩
  | cons i l ih =>
      obtain ⟨s₁, hi, hrest⟩ := evaluate_cons_ok hfold
      obtain ⟨hview, hnone, hone⟩ := ih hrest
      rw [hseen hi] at hview hone
      refine ⟨hview, ?_, ?_⟩
      · intro hzero
        rw [List.count_cons] at hzero
        have hne : i ≠ p := by
          rintro rfl
          simp at hzero
        rw [hnone (by omega), h.other hne hi]
      · intro honce
        rw [List.count_cons] at honce
        by_cases hip : i = p
        · subst hip
          rw [beq_self_eq_true, if_pos rfl] at honce
          rw [hnone (by omega)]
          exact h.observe hi
        · rw [if_neg (by simpa using hip)] at honce
          rw [← h.other hip hi]
          exact hone honce

/-- The observer is like the process, and due when it is. -/
structure Alike (K : Kernel ε σ ι) (p : ι) (own : σ → τ) (R : τ → τ → Prop) (s : Observed σ τ) :
    Prop where
  alike : R (own s.system) s.observer
  due : (K.runnable s.system).count p = if s.due then 1 else 0

/-- A step in order, the observer last. -/
theorem Twin.step (h : Twin K seen O p own R) (hseen : Unseen K seen) {s : Observed σ τ}
    {s' : σ} (hs : Alike K p own R s) (hstep : K.step id s.system = .ok s') :
    ∃ s'', (K.observed seen O).step id s = .ok s'' ∧ s''.system = s' ∧ Alike K p own R s'' := by
  obtain ⟨hR, hdue⟩ := hs
  rcases step_cases hstep with ⟨hr, hs'⟩ | ⟨hr, s₁, hfold, hs'⟩
  · have hnot : s.due = false := by
      cases hd : s.due with
      | false => rfl
      | true =>
          rw [hr, hd] at hdue
          exact absurd hdue (by simp)
    have hidle : (K.observed seen O).runnable s = [] := by
      simp [Kernel.observed, hr, hnot]
    obtain ⟨hown, hcount⟩ := h.advance s.system
    refine ⟨(K.observed seen O).advance s, by rw [Kernel.step, hidle], hs'.symm, ?_, ?_⟩
    · show R (own (K.advance s.system)) s.observer
      rw [hown]
      exact hR
    · show (K.runnable (K.advance s.system)).count p = _
      rw [hcount, h.listens hR]
      rfl
  · rw [id] at hfold
    obtain ⟨hview, hnone, hone⟩ := h.foldlM hseen hfold
    obtain ⟨hown, hsame⟩ := h.enter s.system
    obtain ⟨hupdate, hquiet⟩ := h.update s₁
    have hbusy : (K.observed seen O).runnable s ≠ [] := by
      simp [Kernel.observed, hr]
    rw [step_of_busy hbusy]
    have hrun : ∀ tail, ((K.runnable s.system).map some ++ tail).foldlM
          (K.observed seen O).evaluate ((K.observed seen O).enter s) =
        tail.foldlM (K.observed seen O).evaluate ⟨s₁, s.observer, false⟩ := by
      intro tail
      rw [List.foldlM_append, foldlM_observed]
      simp only [Kernel.observed, hfold]
      rfl
    have hlist : (K.observed seen O).runnable s =
      (K.runnable s.system).map some ++ if s.due then [none] else [] := rfl
    rw [hlist, hrun]
    cases hd : s.due with
    | false =>
        rw [hd] at hdue
        refine ⟨⟨K.update s₁, s.observer, false⟩, rfl, hs'.symm, ?_, hquiet⟩
        show R (own (K.update s₁)) s.observer
        rw [hupdate, hnone hdue, hown]
        exact hR
    | true =>
        rw [hd] at hdue
        have hobs := hone hdue
        rw [hown, hsame] at hobs
        obtain ⟨u', hu', hR'⟩ := h.alike hR hobs
        refine ⟨⟨K.update s₁, u', false⟩, ?_, hs'.symm, ?_, hquiet⟩
        · simp only [if_true, List.foldlM_cons, List.foldlM_nil, Kernel.observed, hview,
            hsame, hu', Except.map, bind, Except.bind, pure, Except.pure]
        · show R (own (K.update s₁)) u'
          rw [hupdate]
          exact hR'

/-- **An observer beside a kernel that has one of its own.** Whatever the
schedule, the kernel runs as it does alone, and the observer stays like the
process of the kernel. -/
theorem Twin.run (h : Twin K seen O p own R) (hseen : Unseen K seen) (hfit : Tireless O Fit)
    (hK : K.Confluent Inv Due) {s : Observed σ τ} (hinv : Inv s.system) (hobs : Fit s.observer)
    (hs : Alike K p own R s) (n : ℕ) :
    ∃ s', (∀ sched, (K.observed seen O).run sched s n = .ok s') ∧
      (∀ sched, K.run sched s.system n = .ok s'.system) ∧ Alike K p own R s' := by
  have hboth := (hK.observed hseen hfit).run (s := s) ⟨hinv, hobs⟩ n
  obtain ⟨s', -, hrun⟩ := hboth
  obtain ⟨t, -, halone⟩ := hK.run hinv n
  suffices hid : ∃ s'', (K.observed seen O).run inOrder s n = .ok s'' ∧
      K.run inOrder s.system n = .ok s''.system ∧ Alike K p own R s'' by
    obtain ⟨s'', hobserved, hsystem, halike⟩ := hid
    rw [hrun inOrder, Except.ok.injEq] at hobserved
    rw [halone inOrder, Except.ok.injEq] at hsystem
    subst hobserved
    exact ⟨s', hrun, fun sched => by rw [halone sched, hsystem], halike⟩
  clear hrun halone
  induction n with
  | zero => exact ⟨s, rfl, rfl, hs⟩
  | succ n ih =>
      obtain ⟨s₁, hobserved, hsystem, halike⟩ := ih
      obtain ⟨t₁, hinv₁, hrun₁⟩ := hK.run hinv n
      rw [hrun₁ inOrder, Except.ok.injEq] at hsystem
      obtain ⟨t₂, -, hstep⟩ := hK.step (hsystem ▸ hinv₁)
      have hnext := hstep id fun l => List.Perm.refl l
      obtain ⟨s₂, hstep₂, hs₂, halike₂⟩ := h.step hseen halike hnext
      refine ⟨s₂, ?_, ?_, halike₂⟩
      · rw [Kernel.run, hobserved]
        exact hstep₂
      · rw [Kernel.run, hrun₁ inOrder, hsystem, hs₂]
        exact hnext

end Kernel

end PipelineBench.DeltaCycle
