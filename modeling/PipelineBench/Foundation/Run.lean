import Mathlib.Data.List.Basic
import Mathlib.Tactic.Common

/-!
# Runs of a fallible machine

A machine takes one input an edge and either moves to its next state or stops
with an error. `history` keeps every edge of a run. `Total` is the induction
over a run, stated once: where an invariant excludes every error, the run
succeeds and a property built edge by edge holds of the whole history.
-/

namespace PipelineBench.Run

variable {ε σ ι : Type*}

/-- One edge: the state before it, the input it consumes, the state after it. -/
@[ext] structure Edge (σ ι : Type*) where
  before : σ
  input : ι
  after : σ

/-- Run a machine over a stream of inputs and keep every edge. -/
def history (step : σ → ι → Except ε σ) : σ → List ι → Except ε (List (Edge σ ι))
  | _, [] => .ok []
  | s, i :: is =>
      match step s i with
      | .error e => .error e
      | .ok s' => (history step s' is).map (⟨s, i, s'⟩ :: ·)

/-- The state a history ends in. -/
def final (s : σ) : List (Edge σ ι) → σ
  | [] => s
  | e :: es => final e.after es

@[simp] theorem history_nil (step : σ → ι → Except ε σ) (s : σ) :
    history step s [] = .ok [] := rfl

@[simp] theorem final_nil (s : σ) : final s ([] : List (Edge σ ι)) = s := rfl

@[simp] theorem final_cons (s : σ) (e : Edge σ ι) (es : List (Edge σ ι)) :
    final s (e :: es) = final e.after es := rfl

theorem final_append (s : σ) (es fs : List (Edge σ ι)) :
    final s (es ++ fs) = final (final s es) fs := by
  induction es generalizing s with
  | nil => rfl
  | cons e es ih => exact ih e.after

variable {step : σ → ι → Except ε σ}

theorem history_cons {s s' : σ} {i : ι} {is : List ι} {es : List (Edge σ ι)}
    (hs : step s i = .ok s') (hes : history step s' is = .ok es) :
    history step s (i :: is) = .ok (⟨s, i, s'⟩ :: es) := by
  rw [history, hs]
  simp only [hes, Except.map]

/-- What the head of a successful run says. -/
theorem history_cons_ok {s : σ} {i : ι} {is : List ι} {fs : List (Edge σ ι)}
    (h : history step s (i :: is) = .ok fs) :
    ∃ s' es, step s i = .ok s' ∧ history step s' is = .ok es ∧ fs = ⟨s, i, s'⟩ :: es := by
  rw [history] at h
  cases hs : step s i with
  | error e => simp [hs] at h
  | ok s' =>
      cases hes : history step s' is with
      | error e => simp [hs, hes, Except.map] at h
      | ok es =>
          simp only [hs, hes, Except.map, Except.ok.injEq] at h
          exact ⟨s', es, rfl, hes, h.symm⟩

theorem history_append {s : σ} {is js : List ι} {es fs : List (Edge σ ι)}
    (hes : history step s is = .ok es) (hfs : history step (final s es) js = .ok fs) :
    history step s (is ++ js) = .ok (es ++ fs) := by
  induction is generalizing s es with
  | nil =>
      rw [history_nil, Except.ok.injEq] at hes
      subst hes
      exact hfs
  | cons i is ih =>
      obtain ⟨s', es', hs, hes', rfl⟩ := history_cons_ok hes
      exact history_cons hs (ih hes' hfs)

theorem history_inputs {s : σ} {is : List ι} {es : List (Edge σ ι)}
    (h : history step s is = .ok es) : es.map Edge.input = is := by
  induction is generalizing s es with
  | nil =>
      rw [history_nil, Except.ok.injEq] at h
      subst h
      rfl
  | cons i is ih =>
      obtain ⟨s', es', _, hes', rfl⟩ := history_cons_ok h
      rw [List.map_cons, ih hes']

theorem history_length {s : σ} {is : List ι} {es : List (Edge σ ι)}
    (h : history step s is = .ok es) : es.length = is.length := by
  rw [← history_inputs h, List.length_map]

/-- A history depends only on the edges taken, so it splits at any edge. -/
theorem history_split {s : σ} {is : List ι} {es fs : List (Edge σ ι)}
    (h : history step s is = .ok (es ++ fs)) :
    history step s (es.map Edge.input) = .ok es ∧
      history step (final s es) (fs.map Edge.input) = .ok fs := by
  induction es generalizing s is with
  | nil =>
      rw [List.nil_append] at h
      refine ⟨rfl, ?_⟩
      rw [final_nil, history_inputs h]
      exact h
  | cons e es ih =>
      cases is with
      | nil => simp at h
      | cons i is =>
          obtain ⟨s', es', hs, hes', heq⟩ := history_cons_ok h
          rw [List.cons_append, List.cons.injEq] at heq
          obtain ⟨rfl, rfl⟩ := heq
          obtain ⟨hl, hr⟩ := ih hes'
          exact ⟨history_cons hs hl, hr⟩

/-- A history cut short is the history of the inputs cut short. -/
theorem history_take {s : σ} {is : List ι} {es : List (Edge σ ι)}
    (h : history step s is = .ok es) (n : ℕ) :
    history step s (is.take n) = .ok (es.take n) := by
  rw [← history_inputs h, ← List.map_take]
  rw [← List.take_append_drop n es] at h
  exact (history_split h).1

/-! ## Invariants -/

/-- `Inv` is kept by every edge, and no edge from it stops with an error. -/
def Total (step : σ → ι → Except ε σ) (Inv : σ → Prop) : Prop :=
  ∀ s i, Inv s → ∃ s', step s i = .ok s' ∧ Inv s'

variable {Inv : σ → Prop}

/-- The induction over a run. The run succeeds, ends in the invariant, and `P`
holds of its history when each edge taken from the invariant extends it. -/
theorem Total.induct (ht : Total step Inv) {P : σ → List (Edge σ ι) → Prop}
    (nil : ∀ s, Inv s → P s [])
    (cons : ∀ s i s' es, Inv s → step s i = .ok s' → Inv s' → P s' es →
      P s (⟨s, i, s'⟩ :: es)) :
    ∀ (is : List ι) (s : σ), Inv s →
      ∃ es, history step s is = .ok es ∧ Inv (final s es) ∧ P s es := by
  intro is
  induction is with
  | nil => exact fun s hs => ⟨[], rfl, hs, nil s hs⟩
  | cons i is ih =>
      intro s hs
      obtain ⟨s', hstep, hs'⟩ := ht s i hs
      obtain ⟨es, hes, hfin, hP⟩ := ih s' hs'
      exact ⟨⟨s, i, s'⟩ :: es, history_cons hstep hes, hfin, cons s i s' es hs hstep hs' hP⟩

theorem Total.history_ok (ht : Total step Inv) (is : List ι) {s : σ} (hs : Inv s) :
    ∃ es, history step s is = .ok es ∧ Inv (final s es) := by
  obtain ⟨es, hes, hfin, -⟩ :=
    ht.induct (P := fun _ _ => True) (fun _ _ => trivial) (fun _ _ _ _ _ _ _ _ => trivial) is s hs
  exact ⟨es, hes, hfin⟩

/-- An edge property that holds from the invariant holds at every edge. -/
theorem Total.forall_edges (ht : Total step Inv) {Q : Edge σ ι → Prop}
    (hQ : ∀ s i s', Inv s → step s i = .ok s' → Q ⟨s, i, s'⟩)
    (is : List ι) {s : σ} (hs : Inv s) :
    ∃ es, history step s is = .ok es ∧ Inv (final s es) ∧ ∀ e ∈ es, Q e := by
  refine ht.induct (P := fun _ es => ∀ e ∈ es, Q e) (fun _ _ => by simp) ?_ is s hs
  intro s i s' es hinv hstep _ hes e he
  rcases List.mem_cons.mp he with rfl | he
  · exact hQ s i s' hinv hstep
  · exact hes e he

end PipelineBench.Run
