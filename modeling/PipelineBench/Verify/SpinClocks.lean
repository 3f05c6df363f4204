import PipelineBench.Verify.SpinOrder
import PipelineBench.Verify.UnitTest

/-!
# The unit bench, clock by clock

Whatever order the kernel chooses, one rising edge of the unit bench is one edge
of the module beside one turn of the thread. No exception is met on the way, and
the simulation stops by itself.
-/

namespace PipelineBench.SpinKernel

open PipelineBench.SingleCycle PipelineBench.EvilTest PipelineBench.DeltaCycle

variable {rand : ℕ → BitVec 64} {garbage : TestInformation}

theorem leads_effects (rand : ℕ → BitVec 64) {s : Sim} (h : Inv garbage s)
    (hbusy : s.runnable ≠ []) :
    Kernel.LeadsIn (kernel rand garbage) 1 s (effects rand garbage s) :=
  kernel_apart.leadsIn h hbusy

theorem leads_advance (rand : ℕ → BitVec 64) {s : Sim} (h : Inv garbage s)
    (hidle : s.runnable = []) :
    Kernel.LeadsIn (kernel rand garbage) 1 s (advance s) :=
  kernel_apart.confluent.leadsIn_advance h hidle

/-! ## Settling -/

theorem runnable_quiet {s : Sim} (hrising : s.rising = false) (hquiet : senses s = false) :
    (update s).runnable = [] := by
  cases hspin : s.spin <;> simp [update, hspin, hrising, hquiet]

theorem runnable_fallen {s : Sim} (hrising : s.rising = false) :
    (update s).runnable = [] ∨ (update s).runnable = [.computeAdvance] := by
  cases hspin : s.spin <;> cases hs : senses s <;> simp [update, hspin, hrising, hs]

theorem runnable_risen {s : Sim} (hrising : s.rising = true) (hquiet : senses s = false)
    (hspin : ∀ logger, s.spin ≠ .stopped logger) : (update s).runnable = woken s.spin := by
  cases ht : s.spin with
  | stopped logger => exact absurd ht (hspin logger)
  | _ => simp [update, ht, hrising, hquiet]

/-- One more delta cycle settles the advance, if it is needed. -/
theorem leads_settle (rand : ℕ → BitVec 64) {s : Sim} (h : Inv garbage s)
    (hrunnable : s.runnable = [] ∨ s.runnable = [.computeAdvance]) :
    ∃ m s', m ≤ 1 ∧ Kernel.LeadsIn (kernel rand garbage) m s s' ∧ Inv garbage s' ∧
      s'.runnable = [] ∧ s'.spin = s.spin ∧ s'.inp = s.inp ∧ s'.edges = s.edges ∧
      ∃ a, s'.out = withAdvance s.out a := by
  rcases hrunnable with hidle | hadv
  · exact ⟨0, s, Nat.zero_le 1, fun _ => rfl, h, hidle, rfl, rfl, rfl, s.out.ctl.is_advance, rfl⟩
  · have hleads := leads_effects rand h (by rw [hadv]; exact List.cons_ne_nil _ _)
    have hinv := inv_effects rand h
    rw [effects_settle hadv] at hleads hinv
    refine ⟨1, _, Nat.le_refl 1, hleads, hinv, ?_, rfl, h.inp_current, rfl,
      SingleCycle.computeAdvance s.inp s.out, ?_⟩
    · have hquiet := senses_of_inv h
      exact runnable_quiet h.rising hquiet
    · show withAdvance s.nextOut _ = _
      rw [h.out_current]

/-- From the delta cycle of the rising edge to the next rest: the module has
taken its edge, and the thread its turn if it waited. -/
theorem leads_wake (rand : ℕ → BitVec 64) {s : Sim} {out' : MutOutput} {t : Thread}
    {inp' : MutInput} (h : Inv garbage s) (hsettled : Settled s)
    (hrunnable : s.runnable = woken s.spin)
    (hedge : edge s.out s.inp = .ok out')
    (hturn : if s.spin.waits then resume rand garbage s.out s.inp s.spin = .ok (t, inp')
      else t = s.spin ∧ inp' = s.inp) :
    ∃ m s', m ≤ 2 ∧ Kernel.LeadsIn (kernel rand garbage) m s s' ∧ Inv garbage s' ∧
      s'.runnable = [] ∧ s'.spin = t ∧ s'.inp = inp' ∧ s'.edges = s.edges ∧
      ∃ a, s'.out = withAdvance out' a := by
  have hcycle := (cycle_of_settled hsettled).symm.trans hedge
  have hbusy : s.runnable ≠ [] := by
    rw [hrunnable]
    exact List.cons_ne_nil _ _
  have hfirst := leads_effects rand h hbusy
  have hinv := inv_effects rand h
  have heffects : ∃ s₁, effects rand garbage s = update s₁ ∧ s₁.rising = false ∧ s₁.spin = t ∧
      s₁.nextInp = inp' ∧ s₁.edges = s.edges ∧ ∃ a, s₁.nextOut = withAdvance out' a := by
    cases hwaits : s.spin.waits with
    | false =>
        rw [hwaits, if_neg Bool.false_ne_true] at hturn
        obtain ⟨rfl, rfl⟩ := hturn
        exact ⟨_, effects_asleep hcycle (by rw [hrunnable, woken, hwaits]; rfl), h.rising, rfl,
          h.inp_current, rfl, _, rfl⟩
    | true =>
        rw [hwaits, if_pos rfl, ← h.inp_current] at hturn
        exact ⟨_, effects_turn hcycle hturn (by rw [hrunnable, woken, hwaits]; rfl), h.rising, rfl,
          rfl, rfl, _, rfl⟩
  obtain ⟨s₁, heq, hrising, hspin, hinp, hedges, a, hout⟩ := heffects
  rw [heq] at hfirst hinv
  obtain ⟨m, s', hm, hleads, hinv', hidle, hspin', hinp', hedges', b, hout'⟩ :=
    leads_settle rand hinv (runnable_fallen hrising)
  refine ⟨1 + m, s', by omega, hfirst.trans hleads, hinv', hidle, hspin'.trans hspin,
    hinp'.trans hinp, hedges'.trans hedges, b, ?_⟩
  rw [hout']
  show withAdvance s₁.nextOut b = _
  rw [hout]
  rfl

/-! ## A clock period -/

/-- Nothing is runnable; the state is ready for the next rising edge. -/
structure AtRest (garbage : TestInformation) (s : Sim) : Prop where
  inv : Inv garbage s
  idle : s.runnable = []
  settled : Settled s
  running : ∀ logger, s.spin ≠ .stopped logger

theorem atRest_of_inv {s : Sim} (h : Inv garbage s) (hidle : s.runnable = [])
    (hrunning : ∀ logger, s.spin ≠ .stopped logger) : AtRest garbage s := by
  refine ⟨h, hidle, ?_, hrunning⟩
  rcases h.phase with hstart | ⟨-, hsettled⟩ | ⟨-, hsettled⟩ | ⟨-, hsettled⟩ | hr |
    ⟨logger, hspin, -⟩
  · rw [hstart] at hidle
    cases hidle
  · exact hsettled
  · exact hsettled
  · exact hsettled
  · rw [hidle] at hr
    cases hr
  · exact absurd hspin (hrunning logger)

/-- The clock rises. -/
theorem leads_rise (rand : ℕ → BitVec 64) {s : Sim} (h : AtRest garbage s)
    (htimed : timed s.edges s.spin = [.clock]) :
    ∃ s', Kernel.LeadsIn (kernel rand garbage) 2 s s' ∧ Inv garbage s' ∧ Settled s' ∧
      s'.runnable = woken s'.spin ∧ s'.spin = s.spin ∧ s'.inp = s.inp ∧ s'.out = s.out ∧
      s'.edges = s.edges + 1 := by
  have hadvance : advance s = { s with edges := s.edges + 1, runnable := [.clock] } := by
    rw [advance, htimed]
    cases hspin : s.spin with
    | stopped logger => exact absurd hspin (h.running logger)
    | _ => rfl
  have hinv₁ := inv_advance h.idle h.inv
  have hfirst := leads_advance rand h.inv h.idle
  rw [hadvance] at hinv₁ hfirst
  have hsecond := leads_effects rand hinv₁ (List.cons_ne_nil _ _)
  have hinv₂ := inv_effects rand hinv₁
  rw [effects_clock rfl] at hsecond hinv₂
  have hquiet := senses_of_inv h.inv
  refine ⟨_, hfirst.trans hsecond, hinv₂, ?_, runnable_risen rfl hquiet h.running, rfl,
    h.inv.inp_current, h.inv.out_current, rfl⟩
  show s.nextOut.ctl.is_advance = SingleCycle.computeAdvance s.nextInp s.nextOut
  rw [h.inv.inp_current, h.inv.out_current]
  exact h.settled

/-- The clock rises as the thread wakes from its sleep. -/
theorem leads_alarm (rand : ℕ → BitVec 64) {s : Sim} (h : AtRest garbage s) {logger : Logger}
    (hspin : s.spin = .sleep logger) (hedges : s.edges = 2) :
    ∃ s', Kernel.LeadsIn (kernel rand garbage) 2 s s' ∧ Inv garbage s' ∧ Settled s' ∧
      s'.runnable = woken s'.spin ∧ s'.spin = .firstWait (resetLocals garbage) ∧
      s'.inp = resetInput ∧ s'.out = s.out ∧ s'.edges = 3 := by
  have hadvance : advance s = { s with edges := s.edges + 1, runnable := [.clock, .spin] } := by
    rw [advance, hspin, hedges]
    rfl
  have hinv₁ := inv_advance h.idle h.inv
  have hfirst := leads_advance rand h.inv h.idle
  rw [hadvance] at hinv₁ hfirst
  have hsecond := leads_effects rand hinv₁ (List.cons_ne_nil _ _)
  have hinv₂ := inv_effects rand hinv₁
  rw [effects_alarm hinv₁ hspin rfl] at hsecond hinv₂
  have hstanding := h.inv.standing
  rw [hspin] at hstanding
  obtain ⟨-, hinp, -⟩ := hstanding
  refine ⟨_, hfirst.trans hsecond, hinv₂, ?_, runnable_risen rfl ?_ (by simp), rfl, rfl,
    h.inv.out_current, congrArg Nat.succ hedges⟩
  · show s.nextOut.ctl.is_advance = SingleCycle.computeAdvance resetInput s.nextOut
    rw [h.inv.out_current, h.settled, hinp]
    rfl
  · exact senses_of_eq (by rw [hinp]; rfl) (by rw [h.inv.out_current]) (by rw [h.inv.out_current])

/-- One clock period of a thread that waits for the edge, or sleeps on. -/
theorem leads_period (rand : ℕ → BitVec 64) {s : Sim} {out' : MutOutput} {t : Thread}
    {inp' : MutInput} (h : AtRest garbage s) (htimed : timed s.edges s.spin = [.clock])
    (hedge : edge s.out s.inp = .ok out')
    (hturn : if s.spin.waits then resume rand garbage s.out s.inp s.spin = .ok (t, inp')
      else t = s.spin ∧ inp' = s.inp) :
    ∃ m s', m ≤ 4 ∧ Kernel.LeadsIn (kernel rand garbage) m s s' ∧ Inv garbage s' ∧
      s'.runnable = [] ∧ s'.spin = t ∧ s'.inp = inp' ∧ s'.edges = s.edges + 1 ∧
      ∃ a, s'.out = withAdvance out' a := by
  obtain ⟨s₁, hrise, hinv, hsettled, hrunnable, hspin, hinp, hout, hedges⟩ :=
    leads_rise rand h htimed
  rw [← hout, ← hinp] at hedge
  rw [← hspin, ← hout, ← hinp] at hturn
  obtain ⟨m, s', hm, hwake, hinv', hidle, hspin', hinp', hedges', hout'⟩ :=
    leads_wake rand hinv hsettled hrunnable hedge hturn
  exact ⟨2 + m, s', by omega, hrise.trans hwake, hinv', hidle, hspin', hinp',
    hedges'.trans hedges, hout'⟩

/-! ## The test -/

/-- At rest at the top of an iteration: the signals and locals are those of the
test beside the module, with the advance settled. -/
structure AtTop (rand : ℕ → BitVec 64) (garbage : TestInformation) (out₁ : MutOutput) (n : ℕ)
    (s : Sim) (w : Spin.Beside MutOutput) : Prop where
  rest : AtRest garbage s
  world : Spin.doTestEvil Spin.mut0 rand .fresh garbage out₁ .powerUp n = .ok w
  spin : s.spin = .top n w.locals
  inp : s.inp = w.inp
  out : s.out = settle w.inp w.state
  edges : s.edges = n + 3

/-- A settled advance is the one `settle` computes. -/
theorem eq_settle {s : Sim} (h : Settled s) {out' : MutOutput} {a : Bool}
    (hout : s.out = withAdvance out' a) : s.out = settle s.inp out' := by
  unfold Settled at h
  rw [hout] at h ⊢
  have hadv : a = SingleCycle.computeAdvance s.inp out' := h
  rw [hadv]
  rfl

theorem atTop_succ {out₁ : MutOutput} {n : ℕ} {s : Sim} {w : Spin.Beside MutOutput}
    (h : AtTop rand garbage out₁ n s w) (hn : n < Spin.iterations) :
    ∃ m s' w', m ≤ 4 ∧ Kernel.LeadsIn (kernel rand garbage) m s s' ∧
      AtTop rand garbage out₁ (n + 1) s' w' := by
  obtain ⟨out', hedge, -⟩ := edge_spec s.inp h.rest.inv.unstalled
  obtain ⟨t, inp', hresume⟩ : ∃ t inp', resume rand garbage s.out s.inp s.spin = .ok (t, inp') :=
    resume_ok h.rest.inv.standing h.rest.inv.unstalled
  have hiter : ∃ l, iteration n (rand n) s.out w.locals s.inp = .ok (l, inp') ∧
      t = .top (n + 1) l := by
    rw [h.spin, resume, if_pos hn] at hresume
    cases hiter : iteration n (rand n) s.out w.locals s.inp with
    | error e =>
        rw [hiter] at hresume
        cases hresume
    | ok r =>
        rw [hiter, Except.map, Except.ok.injEq, Prod.mk.injEq] at hresume
        obtain ⟨rfl, rfl⟩ := hresume
        exact ⟨r.1, rfl, rfl⟩
  obtain ⟨l, hiter, rfl⟩ := hiter
  have htimed : timed s.edges s.spin = [.clock] := by
    rw [h.spin]
    rfl
  obtain ⟨m, s', hm, hleads, hinv, hidle, hspin, hinp, hedges, a, hout⟩ :=
    leads_period rand h.rest htimed hedge (by rw [h.spin] at hresume ⊢; exact hresume)
  have hrest := atRest_of_inv hinv hidle (by rw [hspin]; simp)
  refine ⟨m, s', ⟨out', inp', l⟩, hm, hleads, hrest, ?_, hspin, hinp, ?_, ?_⟩
  · rw [Spin.doTestEvil, h.world]
    have hbeside : iteration n (rand n) w.state w.locals w.inp = .ok (l, inp') := by
      rw [h.inp, h.out] at hiter
      exact hiter
    have hmodule : edge w.state w.inp = .ok out' := by
      rw [h.inp, h.out] at hedge
      exact hedge
    show Spin.together Spin.mut0 w.state w.inp (iteration n (rand n) w.state w.locals w.inp) = _
    rw [hbeside, Spin.together]
    show (edge w.state w.inp).map _ = _
    rw [hmodule]
    rfl
  · rw [eq_settle hrest.settled hout, hinp]
  · rw [hedges, h.edges]

/-- The first two edges, at which the thread sleeps. -/
theorem leads_sleep (rand : ℕ → BitVec 64) {s : Sim} {out' : MutOutput} (h : AtRest garbage s)
    (hspin : s.spin = .sleep .fresh) (hinp : s.inp = .powerUp) (hedges : s.edges ≠ 2)
    (hedge : edge s.out .powerUp = .ok out') :
    ∃ m s', m ≤ 4 ∧ Kernel.LeadsIn (kernel rand garbage) m s s' ∧ AtRest garbage s' ∧
      s'.spin = .sleep .fresh ∧ s'.inp = .powerUp ∧ s'.out = settle .powerUp out' ∧
      s'.edges = s.edges + 1 := by
  have htimed : timed s.edges s.spin = [.clock] := by rw [hspin, timed, if_neg hedges]
  rw [← hinp] at hedge
  obtain ⟨m, s', hm, hleads, hinv, hidle, hspin', hinp', hedges', a, hout⟩ :=
    leads_period (t := s.spin) rand h htimed hedge (by rw [hspin]; exact ⟨rfl, rfl⟩)
  have hrest := atRest_of_inv hinv hidle (by rw [hspin', hspin]; simp)
  refine ⟨m, s', hm, hleads, hrest, hspin'.trans hspin, hinp'.trans hinp, ?_, hedges'⟩
  rw [eq_settle hrest.settled hout, hinp', hinp]

/-- Initialisation: the module takes a reset and the thread falls asleep. -/
theorem leads_initialise (rand : ℕ → BitVec 64) (garbage : TestInformation) :
    ∃ s, Kernel.LeadsIn (kernel rand garbage) 1 powerUp s ∧ AtRest garbage s ∧
      s.spin = .sleep .fresh ∧ s.inp = .powerUp ∧ s.out = settle .powerUp initialised ∧
      s.edges = 0 := by
  have hinv : Inv garbage powerUp := inv_powerUp
  have hleads := leads_effects rand hinv (List.cons_ne_nil _ _)
  refine ⟨_, hleads, atRest_of_inv (inv_effects rand hinv) rfl ?_, rfl, rfl, rfl, rfl⟩
  intro logger hspin
  cases hspin

/-- The edge at two seconds: the thread has written the first reset ahead of it
and writes the second one beside it. -/
theorem leads_resets (rand : ℕ → BitVec 64) {s : Sim} {out₁ out₂ : MutOutput}
    (h : AtRest garbage s) (hspin : s.spin = .sleep .fresh) (hedges : s.edges = 2)
    (hout : s.out = settle .powerUp out₂) (hun : Unstalled out₂)
    (hsecond : edge out₁ .powerUp = .ok out₂) :
    ∃ m s' w, m ≤ 4 ∧ Kernel.LeadsIn (kernel rand garbage) m s s' ∧
      AtTop rand garbage out₁ 0 s' w := by
  obtain ⟨s₁, hrise, hinv₁, hsettled₁, hrunnable₁, hspin₁, hinp₁, hout₁, hedges₁⟩ :=
    leads_alarm rand h hspin hedges
  obtain ⟨out₃, hthird, -⟩ := edge_spec resetInput hun
  have hedge : edge s₁.out s₁.inp = .ok out₃ := by
    rw [hout₁, hinp₁, hout]
    exact hthird
  have hturn : resume rand garbage s₁.out s₁.inp s₁.spin =
      .ok (.top 0 (secondReset (resetLocals garbage) resetInput).1,
        (secondReset (resetLocals garbage) resetInput).2) := by
    rw [hspin₁, hinp₁]
    rfl
  obtain ⟨m, s', hm, hwake, hinv', hidle, hspin', hinp', hedges', a, hout'⟩ :=
    leads_wake rand hinv₁ hsettled₁ hrunnable₁ hedge (by rw [hspin₁] at hturn ⊢; exact hturn)
  have hrest := atRest_of_inv hinv' hidle (by rw [hspin']; simp)
  refine ⟨2 + m, s', ⟨out₃, (secondReset (resetLocals garbage) resetInput).2,
    (secondReset (resetLocals garbage) resetInput).1⟩, by omega, hrise.trans hwake, hrest, ?_,
    hspin', hinp', ?_, hedges'.trans hedges₁⟩
  · rw [Spin.doTestEvil, firstReset_ok rfl, Spin.together]
    show ((edge out₁ .powerUp).map _).bind _ = _
    rw [hsecond]
    show Spin.together Spin.mut0 out₂ resetInput
      (.ok (secondReset (resetLocals garbage) resetInput)) = _
    rw [Spin.together]
    show (edge out₂ resetInput).map _ = _
    rw [hthird]
    rfl
  · rw [eq_settle hrest.settled hout', hinp']

/-- From power up to the top of the first iteration. -/
theorem leads_powerUp (rand : ℕ → BitVec 64) (garbage : TestInformation) :
    ∃ m s w out₁, m ≤ 13 ∧ Kernel.LeadsIn (kernel rand garbage) m powerUp s ∧
      Spin.idle Spin.mut0 .powerUp 1 initialised = .ok out₁ ∧
      AtTop rand garbage out₁ 0 s w := by
  obtain ⟨s₀, hleads₀, hrest₀, hspin₀, hinp₀, hout₀, hedges₀⟩ := leads_initialise rand garbage
  obtain ⟨out₁, hedge₁, hspec₁⟩ := edge_spec .powerUp initialised_unstalled
  obtain ⟨m₁, s₁, hm₁, hleads₁, hrest₁, hspin₁, hinp₁, hout₁, hedges₁⟩ :=
    leads_sleep rand hrest₀ hspin₀ hinp₀ (by omega) (by rw [hout₀]; exact hedge₁)
  obtain ⟨out₂, hedge₂, hspec₂⟩ := edge_spec .powerUp hspec₁.is_stall
  obtain ⟨m₂, s₂, hm₂, hleads₂, hrest₂, hspin₂, hinp₂, hout₂, hedges₂⟩ :=
    leads_sleep rand hrest₁ hspin₁ hinp₁ (by omega) (by rw [hout₁]; exact hedge₂)
  obtain ⟨m₃, s₃, w, hm₃, hleads₃, htop⟩ :=
    leads_resets rand hrest₂ hspin₂ (by omega) hout₂ hspec₂.is_stall hedge₂
  refine ⟨1 + m₁ + m₂ + m₃, s₃, w, out₁, by omega,
    ((hleads₀.trans hleads₁).trans hleads₂).trans hleads₃, ?_, htop⟩
  show (edge initialised .powerUp).bind _ = _
  rw [hedge₁]
  rfl

theorem leads_top (rand : ℕ → BitVec 64) (garbage : TestInformation) {n : ℕ}
    (hn : n ≤ Spin.iterations) :
    ∃ m s w out₁, m ≤ 4 * (n + 3) + 1 ∧ Kernel.LeadsIn (kernel rand garbage) m powerUp s ∧
      Spin.idle Spin.mut0 .powerUp 1 initialised = .ok out₁ ∧
      AtTop rand garbage out₁ n s w := by
  induction n with
  | zero => exact leads_powerUp rand garbage
  | succ n ih =>
      obtain ⟨m, s, w, out₁, hm, hleads, hidle, htop⟩ := ih (by omega)
      obtain ⟨m', s', w', hm', hleads', htop'⟩ := atTop_succ htop hn
      exact ⟨m + m', s', w', out₁, by omega, hleads.trans hleads', hidle, htop'⟩

/-- **The kernel runs the unit test.** Whatever the random stream and in whatever
order the processes of a delta cycle are evaluated: `n + 3` edges after power up
the signals are at rest and the thread stands at the top of iteration `n`, with
the locals, the logger, the inputs and the module of the test run beside the
module edge by edge, one edge after initialisation, and with the advance settled. -/
theorem unit_bench_clocks (rand : ℕ → BitVec 64) (garbage : TestInformation) (n : ℕ)
    (hn : n ≤ Spin.iterations) :
    ∃ m s w out₁, m ≤ 4 * (n + 3) + 1 ∧
      (∀ sched, (kernel rand garbage).run sched powerUp m = .ok s) ∧
      s.runnable = [] ∧ s.edges = n + 3 ∧
      Spin.idle Spin.mut0 .powerUp 1 initialised = .ok out₁ ∧
      Spin.doTestEvil Spin.mut0 rand .fresh garbage out₁ .powerUp n = .ok w ∧
      s.spin = .top n w.locals ∧ s.inp = w.inp ∧ s.out = settle w.inp w.state := by
  obtain ⟨m, s, w, out₁, hm, hleads, hidle, htop⟩ := leads_top rand garbage hn
  exact ⟨m, s, w, out₁, hm, hleads, htop.rest.idle, htop.edges, hidle, htop.world, htop.spin,
    htop.inp, htop.out⟩

theorem unit_bench_clocks_one :
    ∃ m s w out₁, m ≤ 4 * (1 + 3) + 1 ∧
      (∀ sched, (kernel (fun _ => 0x0000000100010101)
        ⟨resetState, resetStimuli, resetState⟩).run sched powerUp m = .ok s) ∧
      s.runnable = [] ∧ s.edges = 1 + 3 ∧
      Spin.idle Spin.mut0 .powerUp 1 initialised = .ok out₁ ∧
      Spin.doTestEvil Spin.mut0 (fun _ => 0x0000000100010101) .fresh
        ⟨resetState, resetStimuli, resetState⟩ out₁ .powerUp 1 = .ok w ∧
      s.spin = .top 1 w.locals ∧ s.inp = w.inp ∧ s.out = settle w.inp w.state :=
  unit_bench_clocks _ _ 1 (by decide)

/-! ## The end -/

/-- The simulation stays where it was stopped. -/
theorem run_stopped {s : Sim} {logger : Logger} (hspin : s.spin = .stopped logger)
    (hidle : s.runnable = []) (sched : Schedule Process) (n : ℕ) :
    (kernel rand garbage).run sched s n = .ok s := by
  have hstep : ∀ order, (kernel rand garbage).step order s = .ok s := by
    intro order
    have hnone : (kernel rand garbage).runnable s = [] := hidle
    rw [Kernel.step, hnone]
    show Except.ok (advance s) = _
    rw [advance, hspin]
  induction n with
  | zero => rfl
  | succ n ih =>
      rw [Kernel.run, ih]
      exact hstep (sched.order n)

/-- The edge after the last iteration. -/
theorem leads_stop {out₁ : MutOutput} {s : Sim} {w : Spin.Beside MutOutput}
    (h : AtTop rand garbage out₁ Spin.iterations s w) :
    ∃ m s', m ≤ 4 ∧ Kernel.LeadsIn (kernel rand garbage) m s s' ∧ s'.runnable = [] ∧
      s'.spin = .stopped w.locals.logger.endGroup := by
  obtain ⟨out', hedge, -⟩ := edge_spec s.inp h.rest.inv.unstalled
  have htimed : timed s.edges s.spin = [.clock] := by
    rw [h.spin]
    rfl
  have hresume : resume rand garbage s.out s.inp s.spin =
      .ok (.stopped w.locals.logger.endGroup, s.inp) := by
    rw [h.spin, resume, if_neg (lt_irrefl _)]
  obtain ⟨m, s', hm, hleads, -, hidle, hspin, -, -, -⟩ :=
    leads_period rand h.rest htimed hedge (by rw [h.spin] at hresume ⊢; exact hresume)
  exact ⟨m, s', hm, hleads, hidle, hspin⟩

/-- **The unit bench stops by itself.** Under every schedule no delta cycle ends
in an exception, and from some delta cycle on the simulation stands still. What
the logger holds there is what the program is left with after any run time that
covers the test: one group of 100000 passed tests, reported as PASS. -/
theorem unit_bench_stops (rand : ℕ → BitVec 64) (garbage : TestInformation) :
    (∀ k, ∃ s, ∀ sched, (kernel rand garbage).run sched powerUp k = .ok s) ∧
    ∃ m s logger, m ≤ 4 * (Spin.iterations + 4) + 1 ∧
      (∀ k sched, m ≤ k → (kernel rand garbage).run sched powerUp k = .ok s) ∧
      s.spin = .stopped logger ∧ logger.output = .ok UnitTest.wholeReport ∧
      ∀ clocks, Spin.iterations + 4 ≤ clocks →
        Spin.start Spin.mut0 rand garbage 1 clocks .fresh initialised .powerUp = .ok logger := by
  constructor
  · intro k
    have hinv : Inv garbage powerUp := inv_powerUp
    obtain ⟨s, -, hrun⟩ := kernel_apart.confluent.run hinv k
    exact ⟨s, hrun⟩
  · obtain ⟨m, s, w, out₁, hm, hleads, hidle₁, htop⟩ := leads_top rand garbage (le_refl _)
    obtain ⟨m', s', hm', hleads', hidle, hspin⟩ := leads_stop htop
    refine ⟨m + m', s', w.locals.logger.endGroup, by omega, ?_, hspin, ?_, ?_⟩
    · intro k sched hk
      obtain ⟨j, rfl⟩ := Nat.exists_eq_add_of_le hk
      rw [Kernel.run_add, (hleads.trans hleads') sched]
      exact run_stopped hspin hidle _ j
    · have hlogger : w.locals.logger.endGroup = ⟨.fresh, [UnitTest.evilGroup]⟩ := by
        rw [UnitTest.logger_of_doTestEvil htop.world]
        rfl
      rw [hlogger]
      exact UnitTest.output_whole
    · intro clocks hclocks
      have hwaits : min clocks 1 = 1 := by omega
      have hall : min (clocks - (1 + 2)) Spin.iterations = Spin.iterations := by omega
      have hwait : ¬ clocks ≤ 1 := by omega
      have hone : ¬ clocks = 1 + 1 := by omega
      have hlong : ¬ clocks ≤ 1 + 2 + Spin.iterations := by omega
      simp only [Spin.start, bind, Except.bind, pure, Except.pure, hwaits, hidle₁]
      rw [if_neg hwait, if_neg hone, hall]
      simp only [htop.world]
      rw [if_neg hlong]

end PipelineBench.SpinKernel
