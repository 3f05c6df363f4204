import PipelineBench.Unit.SpinKernel

/-!
# The order of evaluation in the unit bench

The four processes read signals as they stand and write apart, so a delta cycle
has one outcome. Which processes may be runnable together follows from the
sensitivity lists, and with it that the edge always finds the advance settled and
the thread the reading it expects.
-/

namespace PipelineBench.SpinKernel

open PipelineBench.SingleCycle PipelineBench.EvilTest PipelineBench.DeltaCycle

variable {rand : ℕ → BitVec 64} {garbage : TestInformation}

/-! ## What a process does -/

/-- The effect of a process on a delta cycle entered in `s₀`. -/
def effect (rand : ℕ → BitVec 64) (garbage : TestInformation) (s₀ : Sim) (p : Process)
    (s : Sim) : Sim :=
  match p with
  | .clock => { s with rising := true }
  | .spin =>
      match resume rand garbage s₀.out s₀.nextInp s₀.spin with
      | .error _ => s
      | .ok (t, inp) => { s with nextInp := inp, spin := t }
  | .cycle =>
      match SingleCycle.cycle s₀.inp s₀.out with
      | .error _ => s
      | .ok out => { s with nextOut := withAdvance out s.nextOut.ctl.is_advance }
  | .computeAdvance =>
      { s with nextOut := withAdvance s.nextOut (SingleCycle.computeAdvance s₀.inp s₀.out) }

/-- No two processes write the same place. -/
theorem effect_comm (s₀ : Sim) (p q : Process) (s : Sim) :
    effect rand garbage s₀ p (effect rand garbage s₀ q s) =
      effect rand garbage s₀ q (effect rand garbage s₀ p s) := by
  cases hr : resume rand garbage s₀.out s₀.nextInp s₀.spin <;>
    cases hc : SingleCycle.cycle s₀.inp s₀.out <;>
    cases p <;> cases q <;> simp only [effect, hr, hc, withAdvance]

/-- What the others leave of the state a process reads. -/
structure Untouched (s₀ : Sim) (done : List Process) (s : Sim) : Prop where
  inp : s.inp = s₀.inp
  out : s.out = s₀.out
  spin : .spin ∉ done → s.spin = s₀.spin ∧ s.nextInp = s₀.nextInp

theorem untouched (s₀ : Sim) (done : List Process) :
    Untouched s₀ done (done.foldr (effect rand garbage s₀) { s₀ with runnable := [] }) := by
  induction done with
  | nil => exact ⟨rfl, rfl, fun _ => ⟨rfl, rfl⟩⟩
  | cons p done ih =>
      rw [List.foldr_cons]
      cases p with
      | clock => exact ⟨ih.inp, ih.out, fun h => ih.spin fun hm => h (List.mem_cons_of_mem _ hm)⟩
      | spin =>
          have habsurd : .spin ∉ Process.spin :: done → False := fun h => h (List.mem_cons_self ..)
          cases hr : resume rand garbage s₀.out s₀.nextInp s₀.spin with
          | error e =>
              simp only [effect, hr]
              exact ⟨ih.inp, ih.out, fun h => (habsurd h).elim⟩
          | ok r =>
              simp only [effect, hr]
              exact ⟨ih.inp, ih.out, fun h => (habsurd h).elim⟩
      | cycle =>
          have hrest : .spin ∉ Process.cycle :: done → .spin ∉ done :=
            fun h hm => h (List.mem_cons_of_mem _ hm)
          cases hc : SingleCycle.cycle s₀.inp s₀.out with
          | error e =>
              simp only [effect, hc]
              exact ⟨ih.inp, ih.out, fun h => ih.spin (hrest h)⟩
          | ok out =>
              simp only [effect, hc]
              exact ⟨ih.inp, ih.out, fun h => ih.spin (hrest h)⟩
      | computeAdvance =>
          exact ⟨ih.inp, ih.out, fun h => ih.spin fun hm => h (List.mem_cons_of_mem _ hm)⟩

/-! ## Between two delta cycles -/

/-- The advance is that of the current signals. -/
def Settled (s : Sim) : Prop := s.out.ctl.is_advance = SingleCycle.computeAdvance s.inp s.out

/-- The locals at the first wait, and the inputs written ahead of it. -/
def resetLocals (garbage : TestInformation) : Locals :=
  ⟨⟨⟨false, false, false, false⟩, resetStimuli, resetState⟩, garbage, opened .fresh⟩

def resetInput : MutInput := writeReset .powerUp resetStimuli "EVIL RESET: #1."

/-- What the thread relies on where it stands. -/
def Standing (garbage : TestInformation) (out : MutOutput) (inp : MutInput) : Thread → Prop
  | .entry logger => logger = .fresh ∧ inp = .powerUp ∧ out.ctl.is_valid = false
  | .sleep logger => logger = .fresh ∧ inp = .powerUp ∧ out.ctl.is_valid = false
  | .firstWait locals =>
      locals = resetLocals garbage ∧ inp = resetInput ∧ out.ctl.is_valid = false
  | .top _ locals => Follows ⟨out, inp, locals⟩
  | .stopped _ => True

/-- Which processes may be runnable, and that the edge finds the advance settled. -/
inductive Phase (s : Sim) : Prop
  | start (h : s = powerUp)
  | rest (hrunnable : s.runnable = []) (h : Settled s)
  | rise (hrunnable : s.runnable = timed (s.edges - 1) s.spin) (h : Settled s)
  | wake (hrunnable : s.runnable = woken s.spin) (h : Settled s)
  | settle (hrunnable : s.runnable = [.computeAdvance])
  | stopped (logger : Logger) (hspin : s.spin = .stopped logger) (hrunnable : s.runnable = [])

structure Inv (garbage : TestInformation) (s : Sim) : Prop where
  inp_current : s.nextInp = s.inp
  out_current : s.nextOut = s.out
  rising : s.rising = false
  unstalled : Unstalled s.out
  standing : Standing garbage s.out s.inp s.spin
  phase : Phase s

theorem inv_powerUp : Inv garbage powerUp :=
  ⟨rfl, rfl, rfl, rfl, ⟨rfl, rfl, rfl⟩, .start rfl⟩

/-! ## One turn of the thread -/

theorem standing_withAdvance {out : MutOutput} {inp : MutInput} {t : Thread}
    (h : Standing garbage out inp t) (is_advance : Bool) :
    Standing garbage (withAdvance out is_advance) inp t := by
  cases t with
  | top n locals => exact ⟨h.unstalled, h.expected, h.read, h.pending⟩
  | _ => exact h

/-- The module runs beside a thread that sleeps. -/
theorem standing_asleep {out out' : MutOutput} {inp : MutInput} {t : Thread}
    (h : Standing garbage out inp t) (hwaits : t.waits = false) (hedge : EdgeSpec out inp out') :
    Standing garbage out' inp t := by
  have hinvalid : ∀ {inp : MutInput}, inp = .powerUp → EdgeSpec out inp out' →
      out'.ctl.is_valid = false := by
    rintro inp rfl hedge
    have hdis : Discards .powerUp := Or.inl rfl
    rw [hedge.is_valid, if_pos hdis]
  cases t with
  | entry logger => exact ⟨h.1, h.2.1, hinvalid h.2.1 hedge⟩
  | sleep logger => exact ⟨h.1, h.2.1, hinvalid h.2.1 hedge⟩
  | stopped logger => trivial
  | firstWait locals => cases hwaits
  | top n locals => cases hwaits

/-- The thread beside one edge of the module: it meets neither of its throws. -/
theorem standing_turn {out out' : MutOutput} {inp : MutInput} {t : Thread}
    (h : Standing garbage out inp t) (hwaits : t.waits = true) (hun : Unstalled out)
    (hrun : edge out inp = .ok out') :
    ∃ t' inp', resume rand garbage out inp t = .ok (t', inp') ∧ Standing garbage out' inp' t' := by
  have hedge := edgeSpec_of_edge hun hrun
  cases t with
  | entry logger => cases hwaits
  | sleep logger => cases hwaits
  | stopped logger => cases hwaits
  | firstWait locals =>
      obtain ⟨rfl, rfl, hvalid⟩ := h
      refine ⟨_, _, rfl, hedge.is_stall, rfl, ?_, ?_⟩
      · show readBack out' = resetState
        rw [readBack_edge hun hedge]
        exact predictControls_reset hun hvalid
      · show predictControls (readBack out') resetStimuli = resetState
        rw [readBack_edge hun hedge]
        exact (predictControls_reset rfl rfl)
  | top n locals =>
      by_cases hn : n < Spin.iterations
      · obtain ⟨w, htogether, hfollows, -⟩ := follows_iteration h n (rand n)
        have hthread : EvilTest.together out inp (iteration n (rand n) out locals inp) = .ok w :=
          htogether
        cases hiter : iteration n (rand n) out locals inp with
        | error e =>
            rw [hiter] at hthread
            cases hthread
        | ok r =>
            rw [hiter, EvilTest.together, hrun, Except.map, Except.ok.injEq] at hthread
            subst hthread
            refine ⟨.top (n + 1) r.1, r.2, ?_, hfollows⟩
            rw [resume, if_pos hn, hiter]
            rfl
      · refine ⟨.stopped locals.logger.endGroup, inp, ?_, trivial⟩
        rw [resume, if_neg hn]

/-- The thread always gets to its next wait. -/
theorem resume_ok {out : MutOutput} {inp : MutInput} {t : Thread}
    (h : Standing garbage out inp t) (hun : Unstalled out) :
    ∃ t' inp', resume rand garbage out inp t = .ok (t', inp') := by
  obtain ⟨out', hrun, -⟩ := edge_spec inp hun
  cases t with
  | entry logger => exact ⟨_, _, rfl⟩
  | sleep logger =>
      obtain ⟨rfl, -, -⟩ := h
      exact ⟨_, _, rfl⟩
  | stopped logger => exact ⟨_, _, rfl⟩
  | firstWait locals => exact ⟨_, _, rfl⟩
  | top n locals =>
      obtain ⟨t', inp', hresume, -⟩ :=
        standing_turn (t := .top n locals) h rfl hun hrun
      exact ⟨t', inp', hresume⟩

/-! ## The update -/

/-- The sensitivity list names every signal the advance is made of. -/
theorem computeAdvance_of_quiet {s : Sim} (h : senses s = false) :
    SingleCycle.computeAdvance s.nextInp s.nextOut = SingleCycle.computeAdvance s.inp s.out := by
  simp only [senses, Bool.or_eq_false_iff, bne_eq_false_iff_eq] at h
  obtain ⟨⟨hadv, hstall⟩, hvalid⟩ := h
  simp only [SingleCycle.computeAdvance, hadv, hstall, hvalid]

theorem phase_update {s : Sim}
    (hadv : s.nextOut.ctl.is_advance = SingleCycle.computeAdvance s.inp s.out)
    (hrising : s.rising = true → senses s = false) : Phase (update s) := by
  have hsettled : senses s = false → Settled (update s) := by
    intro hquiet
    exact hadv.trans (computeAdvance_of_quiet hquiet).symm
  have hrunning : (update s).runnable =
      (if s.rising then woken s.spin else []) ++ (if senses s then [.computeAdvance] else []) →
      Phase (update s) := by
    intro hrunnable
    cases hr : s.rising with
    | true =>
        have hquiet := hrising hr
        refine .wake ?_ (hsettled hquiet)
        rw [hrunnable, hr, hquiet]
        exact List.append_nil _
    | false =>
        cases hs : senses s with
        | true => exact .settle (by rw [hrunnable, hr, hs]; rfl)
        | false => exact .rest (by rw [hrunnable, hr, hs]; rfl) (hsettled hs)
  cases hspin : s.spin with
  | stopped logger => exact .stopped logger hspin (by simp only [update, hspin])
  | _ => exact hrunning (by simp only [update, hspin])

theorem inv_update {s : Sim} (hun : Unstalled s.nextOut)
    (hstanding : Standing garbage s.nextOut s.nextInp s.spin)
    (hadv : s.nextOut.ctl.is_advance = SingleCycle.computeAdvance s.inp s.out)
    (hrising : s.rising = true → senses s = false) : Inv garbage (update s) :=
  ⟨rfl, rfl, rfl, hun, hstanding, phase_update hadv hrising⟩

/-- No signal `compute_advance` is sensitive to has been written. -/
theorem senses_of_eq {s : Sim} (hinp : s.nextInp.ctl.is_advance = s.inp.ctl.is_advance)
    (hstall : s.nextOut.ctl.is_stall = s.out.ctl.is_stall)
    (hvalid : s.nextOut.ctl.is_valid = s.out.ctl.is_valid) : senses s = false := by
  rw [senses, hinp, hstall, hvalid, bne_self_eq_false, bne_self_eq_false, bne_self_eq_false]
  rfl

theorem cycle_of_settled {s : Sim} (h : Settled s) :
    edge s.out s.inp = SingleCycle.cycle s.inp s.out := by
  have hsettle : settle s.inp s.out = s.out := by
    rw [settle, ← h]
  rw [edge, hsettle]

/-! ## The delta cycles of a clock period -/

/-- What a delta cycle entered in `s` leaves. -/
def effects (rand : ℕ → BitVec 64) (garbage : TestInformation) (s : Sim) : Sim :=
  update (s.runnable.foldr (effect rand garbage s) { s with runnable := [] })

theorem timed_cases (edges : ℕ) (t : Thread) :
    timed edges t = [.clock] ∨
      ∃ logger, t = .sleep logger ∧ edges = 2 ∧ timed edges t = [.clock, .spin] := by
  cases t with
  | sleep logger =>
      by_cases h : edges = 2
      · exact Or.inr ⟨logger, rfl, h, by rw [timed, if_pos h]⟩
      · exact Or.inl (by rw [timed, if_neg h])
  | _ => exact Or.inl rfl

/-- Nothing has been written yet. -/
theorem senses_of_inv {s : Sim} (h : Inv garbage s) : senses s = false :=
  senses_of_eq (by rw [h.inp_current]) (by rw [h.out_current]) (by rw [h.out_current])

/-- The clock rises and wakes the module, and the thread if it waits for it. -/
theorem effects_clock {s : Sim} (hrunnable : s.runnable = [.clock]) :
    effects rand garbage s = update { s with runnable := [], rising := true } := by
  rw [effects, hrunnable]
  rfl

/-- The thread wakes from its sleep ahead of the rising edge. -/
theorem effects_alarm {s : Sim} (h : Inv garbage s) {logger : Logger}
    (hspin : s.spin = .sleep logger) (hrunnable : s.runnable = [.clock, .spin]) :
    effects rand garbage s = update
      { s with
        runnable := []
        rising := true
        nextInp := resetInput
        spin := .firstWait (resetLocals garbage) } := by
  have hstanding := h.standing
  rw [hspin] at hstanding
  obtain ⟨rfl, hinp, -⟩ := hstanding
  have hresume : resume rand garbage s.out s.nextInp s.spin =
      .ok (.firstWait (resetLocals garbage), resetInput) := by
    rw [hspin, h.inp_current, hinp]
    rfl
  rw [effects, hrunnable]
  simp only [List.foldr_cons, List.foldr_nil, effect, hresume]

/-- The module takes its edge, with no thread beside it. -/
theorem effects_asleep {s : Sim} {out' : MutOutput}
    (hcycle : SingleCycle.cycle s.inp s.out = .ok out') (hrunnable : s.runnable = [.cycle]) :
    effects rand garbage s = update
      { s with runnable := [], nextOut := withAdvance out' s.nextOut.ctl.is_advance } := by
  rw [effects, hrunnable]
  simp only [List.foldr_cons, List.foldr_nil, effect, hcycle]

/-- The module takes its edge and the thread its turn. -/
theorem effects_turn {s : Sim} {out' : MutOutput} {t : Thread} {inp' : MutInput}
    (hcycle : SingleCycle.cycle s.inp s.out = .ok out')
    (hresume : resume rand garbage s.out s.nextInp s.spin = .ok (t, inp'))
    (hrunnable : s.runnable = [.cycle, .spin]) :
    effects rand garbage s = update
      { s with
        runnable := []
        nextOut := withAdvance out' s.nextOut.ctl.is_advance
        nextInp := inp'
        spin := t } := by
  rw [effects, hrunnable]
  simp only [List.foldr_cons, List.foldr_nil, effect, hcycle, hresume]

theorem effects_settle {s : Sim} (hrunnable : s.runnable = [.computeAdvance]) :
    effects rand garbage s = update
      { s with
        runnable := []
        nextOut := withAdvance s.nextOut (SingleCycle.computeAdvance s.inp s.out) } := by
  rw [effects, hrunnable]
  rfl

/-- Whatever was runnable, its effects lead back into the invariant. -/
theorem inv_effects (rand : ℕ → BitVec 64) {s : Sim} (h : Inv garbage s) :
    Inv garbage (effects rand garbage s) := by
  have hun : Unstalled s.nextOut := by
    rw [h.out_current]
    exact h.unstalled
  have hstanding : Standing garbage s.nextOut s.nextInp s.spin := by
    rw [h.out_current, h.inp_current]
    exact h.standing
  have hquiet := senses_of_inv h
  have hadvance : Settled s →
      s.nextOut.ctl.is_advance = SingleCycle.computeAdvance s.inp s.out := by
    intro hsettled
    rw [h.out_current]
    exact hsettled
  rcases h.phase with hstart | ⟨hrunnable, hsettled⟩ | ⟨hrunnable, hsettled⟩ |
    ⟨hrunnable, hsettled⟩ | hrunnable | ⟨logger, hspin, hrunnable⟩
  · subst hstart
    exact inv_update rfl ⟨rfl, rfl, rfl⟩ rfl (fun h => by cases h)
  · rw [effects, hrunnable]
    exact inv_update hun hstanding (hadvance hsettled) (fun _ => hquiet)
  · rcases timed_cases (s.edges - 1) s.spin with htimed | ⟨logger, hspin, -, htimed⟩
    · rw [effects_clock (hrunnable.trans htimed)]
      exact inv_update hun hstanding (hadvance hsettled) (fun _ => hquiet)
    · rw [effects_alarm h hspin (hrunnable.trans htimed)]
      have hsleep := h.standing
      rw [hspin] at hsleep
      obtain ⟨-, hinp, hvalid⟩ := hsleep
      refine inv_update hun ⟨rfl, rfl, ?_⟩ (hadvance hsettled) (fun _ => ?_)
      · rw [h.out_current]
        exact hvalid
      · exact senses_of_eq (by rw [hinp]; rfl) (by rw [h.out_current]) (by rw [h.out_current])
  · obtain ⟨out', hedge, hspec⟩ := edge_spec s.inp h.unstalled
    have hcycle := (cycle_of_settled hsettled).symm.trans hedge
    have hrising : s.rising = true → False := by
      rw [h.rising]
      exact Bool.false_ne_true
    have hadv := hadvance hsettled
    cases hwaits : s.spin.waits with
    | false =>
        rw [effects_asleep hcycle (by rw [hrunnable, woken, hwaits]; rfl)]
        refine inv_update hspec.is_stall ?_ hadv (fun hr => (hrising hr).elim)
        rw [h.inp_current]
        exact standing_withAdvance (standing_asleep h.standing hwaits hspec) _
    | true =>
        obtain ⟨t, inp', hresume, hnext⟩ := standing_turn h.standing hwaits h.unstalled hedge
        rw [← h.inp_current] at hresume
        rw [effects_turn hcycle hresume (by rw [hrunnable, woken, hwaits]; rfl)]
        exact inv_update hspec.is_stall (standing_withAdvance hnext _) hadv
          (fun hr => (hrising hr).elim)
  · rw [effects_settle hrunnable]
    exact inv_update hun (standing_withAdvance hstanding _) rfl (fun _ => hquiet)
  · rw [effects, hrunnable]
    have hupdate : update { s with runnable := [] } = s := by
      obtain ⟨inp, out, nextInp, nextOut, rising, edges, spin, runnable⟩ := s
      obtain ⟨hi, ho, hr, -, -, -⟩ := h
      simp only at hi ho hr hspin hrunnable
      subst hi ho hr hspin hrunnable
      rfl
    show Inv garbage (update { s with runnable := [] })
    rw [hupdate]
    exact h

theorem inv_advance {s : Sim} (hidle : s.runnable = []) (h : Inv garbage s) :
    Inv garbage (advance s) := by
  have hrun : ∀ t, s.spin = t → (∀ logger, t ≠ .stopped logger) →
      Inv garbage { s with edges := s.edges + 1, runnable := timed s.edges s.spin } := by
    intro t ht hnot
    refine ⟨h.inp_current, h.out_current, h.rising, h.unstalled, h.standing, .rise rfl ?_⟩
    rcases h.phase with hstart | ⟨-, hsettled⟩ | ⟨hr, -⟩ | ⟨hr, -⟩ | hr | ⟨logger, hspin, -⟩
    · rw [hstart] at hidle
      cases hidle
    · exact hsettled
    · rcases timed_cases (s.edges - 1) s.spin with htimed | ⟨logger, -, -, htimed⟩
      · rw [hidle, htimed] at hr
        cases hr
      · rw [hidle, htimed] at hr
        cases hr
    · rw [hidle] at hr
      cases hr
    · rw [hidle] at hr
      cases hr
    · exact absurd (ht.symm.trans hspin) (hnot logger)
  cases hspin : s.spin with
  | stopped logger =>
      rw [advance, hspin]
      exact h
  | _ =>
      rw [advance, hspin]
      simp only
      rw [← hspin]
      exact hrun _ hspin (by simp)

/-- A process does what it would have done first. -/
theorem evaluate_of_untouched {s₀ s : Sim} {p : Process} {done : List Process}
    (h : Inv garbage s₀) (hkeep : Untouched s₀ done s) (hdone : p ∉ done) :
    evaluate rand garbage s p = .ok (effect rand garbage s₀ p s) := by
  obtain ⟨inp, out, nextInp, nextOut, rising, edges, spin, runnable⟩ := s
  obtain ⟨rfl, rfl, hspin⟩ := hkeep
  cases p with
  | clock => rfl
  | computeAdvance => rfl
  | cycle =>
      obtain ⟨out, hcycle, -⟩ := cycle_unstalled s₀.inp h.unstalled
      simp only [evaluate, effect, hcycle]
  | spin =>
      obtain ⟨rfl, rfl⟩ := hspin hdone
      obtain ⟨t, inp', hresume⟩ : ∃ t inp', resume rand garbage s₀.out s₀.inp s₀.spin =
          .ok (t, inp') := resume_ok h.standing h.unstalled
      rw [← h.inp_current] at hresume
      simp only [evaluate, effect, hresume]

theorem kernel_apart :
    (kernel rand garbage).Apart (Inv garbage) (effect rand garbage) where
  nodup := by
    intro s h
    have hwoken : ∀ t, (woken t).Nodup := by
      intro t
      unfold woken
      cases t.waits <;> decide
    show s.runnable.Nodup
    rcases h.phase with hstart | ⟨hr, -⟩ | ⟨hr, -⟩ | ⟨hr, -⟩ | hr | ⟨logger, -, hr⟩
    · rw [hstart]
      decide
    · rw [hr]
      exact List.nodup_nil
    · rcases timed_cases (s.edges - 1) s.spin with htimed | ⟨logger, -, -, htimed⟩ <;>
        rw [hr, htimed] <;> decide
    · rw [hr]
      exact hwoken s.spin
    · rw [hr]
      exact List.nodup_cons.mpr ⟨List.not_mem_nil, List.nodup_nil⟩
    · rw [hr]
      exact List.nodup_nil
  evaluate := fun {s _ done} h _ hdone => evaluate_of_untouched h (untouched s done) hdone
  comm := effect_comm
  update := inv_effects rand
  advance := fun hidle h => inv_advance hidle h

end PipelineBench.SpinKernel
