import PipelineBench.Foundation.DeltaCycle
import PipelineBench.Verify.Chain

/-!
# A chain of modules under the SystemC kernel

Every stage brings its two methods, and whatever surrounds the chain writes the
next inputs at each rising edge. The methods are made runnable by the sensitivity
lists of the class alone. Delta cycles in which none of these processes runs, at a
falling edge for example, are no steps.
-/

namespace PipelineBench.ChainKernel

open PipelineBench.SingleCycle PipelineBench.DeltaCycle PipelineBench.Chain

inductive Process where
  | surroundings
  | cycle (k : ℕ)
  | computeAdvance (k : ℕ)
  deriving DecidableEq, Repr

/-- The values of the signals; stage `k` owns `outs k`. -/
structure Signals where
  x : ChainInput
  outs : ℕ → MutOutput

structure Sim where
  /-- current values -/
  now : Signals
  /-- values that become current at the next update -/
  next : Signals
  /-- inputs written so far -/
  written : ℕ
  runnable : List Process

/-- The forward signals bound to stage `k`. -/
def upAt (s : Signals) : ℕ → Link
  | 0 => s.x.source
  | k + 1 => link (s.outs k)

/-- The advance bound to stage `k` of `n`. -/
def advanceAfter (n : ℕ) (s : Signals) (k : ℕ) : Bool :=
  if k + 1 < n then (s.outs (k + 1)).ctl.is_advance else s.x.sink_is_advance

/-- The input signals of stage `k` of `n`. -/
def inputAt (n : ℕ) (s : Signals) (k : ℕ) : MutInput where
  ctl := ⟨s.x.reset, advanceAfter n s k, s.x.is_flush, (upAt s k).is_valid⟩
  data := ⟨(upAt s k).value⟩
  debug := s.x.debug k

/-- What stage `k` has written, with another advance. -/
def withAdvance (out : MutOutput) (is_advance : Bool) : MutOutput :=
  { out with ctl := { out.ctl with is_advance := is_advance } }

def Signals.write (s : Signals) (k : ℕ) (out : MutOutput) : Signals :=
  { s with outs := Function.update s.outs k out }

/-- Run one process up to its end. Every signal has one writer. -/
def evaluate (n : ℕ) (drive : ℕ → ChainInput) (s : Sim) : Process → Except Abort Sim
  | .surroundings =>
      .ok { s with next := { s.next with x := drive s.written }, written := s.written + 1 }
  | .cycle k =>
      match SingleCycle.cycle (inputAt n s.now k) (s.now.outs k) with
      | .error e => .error e
      | .ok out =>
          .ok { s with next :=
            s.next.write k (withAdvance out (s.next.outs k).ctl.is_advance) }
  | .computeAdvance k =>
      .ok { s with next :=
        s.next.write k (withAdvance (s.next.outs k)
          (SingleCycle.computeAdvance (inputAt n s.now k) (s.now.outs k))) }

/-- A signal in the sensitivity list of `compute_advance` of stage `k` changes. -/
def senses (n : ℕ) (s : Sim) (k : ℕ) : Bool :=
  advanceAfter n s.next k != advanceAfter n s.now k ||
  (s.next.outs k).ctl.is_stall != (s.now.outs k).ctl.is_stall ||
  (s.next.outs k).ctl.is_valid != (s.now.outs k).ctl.is_valid

def update (n : ℕ) (s : Sim) : Sim :=
  { s with
    now := s.next
    runnable := ((List.range n).filter (senses n s)).map .computeAdvance }

def posedge (n : ℕ) (s : Sim) : Sim :=
  { s with runnable := .surroundings :: (List.range n).map .cycle }

def kernel (n : ℕ) (drive : ℕ → ChainInput) : Kernel Abort Sim Process where
  runnable := Sim.runnable
  enter := fun s => { s with runnable := [] }
  evaluate := evaluate n drive
  update := update n
  advance := posedge n

/-- Every signal starts at the zero of its type. -/
def unwritten : Signals where
  x := ⟨false, false, ⟨false, 0⟩, false, fun _ => ⟨0, 0, false, ""⟩⟩
  outs := fun _ => .powerUp

/-- Both methods of every stage run once at initialisation. -/
def powerUp (n : ℕ) : Sim where
  now := unwritten
  next := unwritten
  written := 0
  runnable := .surroundings :: (List.range n).map .cycle ++ (List.range n).map .computeAdvance

/-! ## The order of evaluation is not observable -/

variable {n : ℕ} {drive : ℕ → ChainInput}

/-- In the middle of a delta cycle, with the processes of `due` not yet run. -/
structure Due (n : ℕ) (due : List Process) (s : Sim) : Prop where
  unstalled : ∀ k, Unstalled (s.now.outs k)
  next_unstalled : ∀ k, Unstalled (s.next.outs k)
  computed : ∀ k < n, .computeAdvance k ∉ due →
    (s.next.outs k).ctl.is_advance =
      SingleCycle.computeAdvance (inputAt n s.now k) (s.now.outs k)
  idle : s.runnable = []

/-- Between two delta cycles. -/
structure Inv (n : ℕ) (s : Sim) : Prop where
  current : s.next = s.now
  unstalled : ∀ k, Unstalled (s.now.outs k)
  computed : ∀ k < n, .computeAdvance k ∉ s.runnable →
    (s.now.outs k).ctl.is_advance =
      SingleCycle.computeAdvance (inputAt n s.now k) (s.now.outs k)

theorem outs_write (s : Signals) (k : ℕ) (out : MutOutput) (l : ℕ) :
    (s.write k out).outs l = if l = k then out else s.outs l := by
  show Function.update s.outs k out l = _
  rw [Function.update_apply]

theorem write_write (s : Signals) (k : ℕ) (out out' : MutOutput) :
    (s.write k out).write k out' = s.write k out' := by
  simp only [Signals.write, Function.update_idem]

theorem write_comm (s : Signals) {k l : ℕ} (h : k ≠ l) (out out' : MutOutput) :
    (s.write k out).write l out' = (s.write l out').write k out := by
  simp only [Signals.write, Function.update_comm h]

theorem unstalled_write {s : Signals} (h : ∀ k, Unstalled (s.outs k)) {k : ℕ} {out : MutOutput}
    (hout : Unstalled out) (l : ℕ) : Unstalled ((s.write k out).outs l) := by
  rw [outs_write]
  split
  · exact hout
  · exact h l

theorem evaluate_due {p : Process} {due : List Process} {s : Sim} (h : Due n (p :: due) s) :
    ∃ s', evaluate n drive s p = .ok s' ∧ Due n due s' := by
  cases p with
  | surroundings =>
      refine ⟨_, rfl, h.unstalled, h.next_unstalled, ?_, h.idle⟩
      intro k hk hdue
      exact h.computed k hk (by simpa using hdue)
  | cycle k =>
      obtain ⟨out, hcycle, hun⟩ := cycle_unstalled (inputAt n s.now k) (h.unstalled k)
      let next := s.next.write k (withAdvance out (s.next.outs k).ctl.is_advance)
      refine ⟨{ s with next := next }, by rw [evaluate, hcycle], h.unstalled, ?_, ?_, h.idle⟩
      · exact unstalled_write h.next_unstalled hun
      · intro l hl hdue
        have hold := h.computed l hl (by simpa using hdue)
        show ((s.next.write k _).outs l).ctl.is_advance = _
        rw [outs_write]
        split
        next heq =>
          subst heq
          exact hold
        next => exact hold
  | computeAdvance k =>
      refine ⟨_, rfl, h.unstalled, ?_, ?_, h.idle⟩
      · exact unstalled_write h.next_unstalled (h.next_unstalled k)
      · intro l hl hdue
        show ((s.next.write k _).outs l).ctl.is_advance = _
        rw [outs_write]
        split
        next heq =>
          subst heq
          rfl
        next hne =>
          refine h.computed l hl ?_
          rintro (_ | ⟨_, hmem⟩)
          · exact hne rfl
          · exact hdue hmem

/-- Writes of two processes commute: to the same stage they write different
signals, unless they are one process. -/
theorem evaluate_commute {p q : Process} {due : List Process} {s : Sim}
    (h : Due n (p :: q :: due) s) :
    (evaluate n drive s p).bind (evaluate n drive · q) =
      (evaluate n drive s q).bind (evaluate n drive · p) := by
  have hcycle : ∀ k, ∃ out, SingleCycle.cycle (inputAt n s.now k) (s.now.outs k) = .ok out := by
    intro k
    obtain ⟨out, hout, -⟩ := cycle_unstalled (inputAt n s.now k) (h.unstalled k)
    exact ⟨out, hout⟩
  choose out hout using hcycle
  cases p with
  | surroundings =>
      cases q with
      | surroundings => rfl
      | cycle k => simp [evaluate, hout, Except.bind, Signals.write]
      | computeAdvance k => simp [evaluate, Except.bind, Signals.write]
  | cycle k =>
      cases q with
      | surroundings => simp [evaluate, hout, Except.bind, Signals.write]
      | cycle l =>
          by_cases hkl : k = l
          · rw [hkl]
          · simp [evaluate, hout, Except.bind, outs_write, hkl, Ne.symm hkl, write_comm _ hkl]
      | computeAdvance l =>
          by_cases hkl : k = l
          · subst hkl
            simp [evaluate, hout, Except.bind, outs_write, write_write, withAdvance]
          · simp [evaluate, hout, Except.bind, outs_write, hkl, Ne.symm hkl, write_comm _ hkl]
  | computeAdvance k =>
      cases q with
      | surroundings => simp [evaluate, Except.bind, Signals.write]
      | cycle l =>
          by_cases hkl : k = l
          · subst hkl
            simp [evaluate, hout, Except.bind, outs_write, write_write, withAdvance]
          · simp [evaluate, hout, Except.bind, outs_write, hkl, Ne.symm hkl, write_comm _ hkl]
      | computeAdvance l =>
          by_cases hkl : k = l
          · rw [hkl]
          · simp [evaluate, Except.bind, outs_write, hkl, Ne.symm hkl, write_comm _ hkl]

theorem due_perm {s : Sim} {due due' : List Process} (hp : due.Perm due') (h : Due n due s) :
    Due n due' s := by
  refine ⟨h.unstalled, h.next_unstalled, ?_, h.idle⟩
  intro k hk hdue
  exact h.computed k hk fun hmem => hdue (hp.mem_iff.mp hmem)

/-- The sensitivity list of a stage names every signal its advance is made of. -/
theorem computeAdvance_of_quiet {s : Sim} {k : ℕ} (h : senses n s k = false) :
    SingleCycle.computeAdvance (inputAt n s.next k) (s.next.outs k) =
      SingleCycle.computeAdvance (inputAt n s.now k) (s.now.outs k) := by
  simp only [senses, Bool.or_eq_false_iff, bne_eq_false_iff_eq] at h
  obtain ⟨⟨hadv, hstall⟩, hvalid⟩ := h
  simp only [SingleCycle.computeAdvance, inputAt, hadv, hstall, hvalid]

theorem inv_update {s : Sim} (h : Due n [] s) : Inv n (update n s) := by
  refine ⟨rfl, h.next_unstalled, ?_⟩
  intro k hk hnot
  have hquiet : senses n s k = false := by
    by_contra hne
    rw [Bool.not_eq_false] at hne
    apply hnot
    exact List.mem_map_of_mem (List.mem_filter.mpr ⟨List.mem_range.mpr hk, hne⟩)
  show (s.next.outs k).ctl.is_advance = SingleCycle.computeAdvance (inputAt n s.next k) _
  rw [h.computed k hk List.not_mem_nil]
  exact (computeAdvance_of_quiet hquiet).symm

theorem kernel_confluent : (kernel n drive).Confluent (Inv n) (Due n) where
  enter := by
    intro s h
    refine ⟨h.unstalled, ?_, ?_, rfl⟩
    · show ∀ k, Unstalled (s.next.outs k)
      rw [h.current]
      exact h.unstalled
    · intro k hk hdue
      show (s.next.outs k).ctl.is_advance = _
      rw [h.current]
      exact h.computed k hk hdue
  perm := due_perm
  evaluate := evaluate_due
  commute := evaluate_commute
  update := inv_update
  advance := by
    intro s hidle h
    refine ⟨h.current, h.unstalled, ?_⟩
    intro k hk _
    refine h.computed k hk ?_
    have hnone : s.runnable = [] := hidle
    rw [hnone]
    exact List.not_mem_nil

theorem inv_powerUp : Inv n (powerUp n) where
  current := rfl
  unstalled := fun _ => rfl
  computed := by
    intro k hk hnot
    refine absurd ?_ hnot
    simp [powerUp, hk]

end PipelineBench.ChainKernel
