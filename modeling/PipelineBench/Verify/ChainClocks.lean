import PipelineBench.Foundation.KernelLog
import PipelineBench.Verify.ChainKernel

/-!
# A chain, clock by clock

One clock of the kernel is one edge of `chainEdge` and one settling of every
advance. The stages evaluate their methods in no more delta cycles than the chain
is long, and one: each settles at least one more stage, counted from the sink.
-/

namespace PipelineBench.ChainKernel

open PipelineBench.Run PipelineBench.SingleCycle PipelineBench.DeltaCycle PipelineBench.Chain

variable {n : ℕ} {drive : ℕ → ChainInput}

/-! ## The signals as a list of stages -/

/-- Stages `i` to `i + m - 1`. -/
def stagesFrom (outs : ℕ → MutOutput) (i m : ℕ) : List MutOutput := (List.range' i m).map outs

def view (n : ℕ) (s : Signals) : List MutOutput := stagesFrom s.outs 0 n

theorem stagesFrom_succ (outs : ℕ → MutOutput) (i m : ℕ) :
    stagesFrom outs i (m + 1) = outs i :: stagesFrom outs (i + 1) m := by
  rw [stagesFrom, List.range'_succ, List.map_cons]
  rfl

/-- A stage is bound to its neighbours. -/
theorem stageInput_stagesFrom (s : Signals) {i m : ℕ} (h : i + (m + 1) = n) :
    stageInput s.x i (upAt s i) (stagesFrom s.outs (i + 1) m) = inputAt n s i := by
  have hadv : nextAdvance s.x (stagesFrom s.outs (i + 1) m) = advanceAfter n s i := by
    cases m with
    | zero =>
        rw [advanceAfter, if_neg (by omega)]
        rfl
    | succ m =>
        rw [advanceAfter, if_pos (by omega), stagesFrom_succ]
        rfl
  rw [stageInput, hadv]
  rfl

theorem cycleFrom_stagesFrom {s : Signals} {c : ℕ → MutOutput}
    (hc : ∀ k < n, SingleCycle.cycle (inputAt n s k) (s.outs k) = .ok (c k)) {i m : ℕ}
    (h : i + m = n) :
    cycleFrom s.x i (upAt s i) (stagesFrom s.outs i m) = .ok (stagesFrom c i m) := by
  induction m generalizing i with
  | zero => rfl
  | succ m ih =>
      have hrest := ih (i := i + 1) (by omega)
      have hlink : link (s.outs i) = upAt s (i + 1) := rfl
      rw [stagesFrom_succ, stagesFrom_succ, cycleFrom, stageInput_stagesFrom s h, hc i (by omega),
        hlink]
      simp only [bind, Except.bind, pure, Except.pure, hrest]

theorem isSettled_stagesFrom {s : Signals}
    (hs : ∀ k < n, (s.outs k).ctl.is_advance =
      SingleCycle.computeAdvance (inputAt n s k) (s.outs k)) {i m : ℕ} (h : i + m = n) :
    IsSettled s.x i (upAt s i) (stagesFrom s.outs i m) := by
  induction m generalizing i with
  | zero => trivial
  | succ m ih =>
      rw [stagesFrom_succ, IsSettled, stageInput_stagesFrom s h]
      exact ⟨hs i (by omega), ih (by omega)⟩

/-- Everything but the advance, which `compute_advance` overwrites. -/
def hush (out : MutOutput) : MutOutput := withAdvance out false

theorem settleFrom_congr {x : ChainInput} {i : ℕ} {up : Link} {outs outs' : List MutOutput}
    (h : outs.map hush = outs'.map hush) : settleFrom x i up outs = settleFrom x i up outs' := by
  induction outs generalizing i up outs' with
  | nil =>
      cases outs' with
      | nil => rfl
      | cons out' rest' => cases h
  | cons out rest ih =>
      cases outs' with
      | nil => cases h
      | cons out' rest' =>
          rw [List.map_cons, List.map_cons, List.cons.injEq] at h
          have hlink : link out = link out' := by
            have hhushed := congrArg link h.1
            exact hhushed
          have hsettle : ∀ inp, settle inp out = settle inp out' := by
            intro inp
            have hhushed := congrArg (settle inp) h.1
            exact hhushed
          rw [settleFrom, settleFrom, hlink, ih h.2, hsettle]

/-! ## The evaluation phases -/

/-- The processes of one stage that may be runnable together write apart, so an
evaluation phase is known once the values written are. -/
theorem evaluate_cycles (drive : ℕ → ChainInput) {c : ℕ → MutOutput} (l : List ℕ) {s : Sim}
    (hc : ∀ k ∈ l, SingleCycle.cycle (inputAt n s.now k) (s.now.outs k) = .ok (c k)) :
    ∃ s', (l.map Process.cycle).foldlM (evaluate n drive) s = .ok s' ∧
      s'.now = s.now ∧ s'.next.x = s.next.x ∧ s'.written = s.written ∧
      ∀ k, s'.next.outs k =
        if k ∈ l then withAdvance (c k) (s.next.outs k).ctl.is_advance else s.next.outs k := by
  induction l generalizing s with
  | nil => exact ⟨s, rfl, rfl, rfl, rfl, fun k => by simp⟩
  | cons j l ih =>
      let next := s.next.write j (withAdvance (c j) (s.next.outs j).ctl.is_advance)
      have heval : evaluate n drive s (.cycle j) = .ok { s with next := next } := by
        rw [evaluate, hc j (List.mem_cons_self ..)]
      obtain ⟨s', hfold, hnow, hx, hwritten, houts⟩ :=
        ih (s := { s with next := next }) fun k hk => hc k (List.mem_cons_of_mem _ hk)
      refine ⟨s', ?_, hnow, hx, hwritten, ?_⟩
      · rw [List.map_cons, List.foldlM_cons, heval]
        exact hfold
      · intro k
        rw [houts k]
        show (if k ∈ l then withAdvance (c k) (next.outs k).ctl.is_advance else next.outs k) = _
        rw [outs_write]
        by_cases hkj : k = j
        · subst hkj
          simp [withAdvance]
        · simp [hkj]

theorem evaluate_advances (n : ℕ) (drive : ℕ → ChainInput) (l : List ℕ) (s : Sim) :
    ∃ s', (l.map Process.computeAdvance).foldlM (evaluate n drive) s = .ok s' ∧
      s'.now = s.now ∧ s'.next.x = s.next.x ∧ s'.written = s.written ∧
      ∀ k, s'.next.outs k =
        if k ∈ l then withAdvance (s.next.outs k)
          (SingleCycle.computeAdvance (inputAt n s.now k) (s.now.outs k)) else s.next.outs k := by
  induction l generalizing s with
  | nil => exact ⟨s, rfl, rfl, rfl, rfl, fun k => by simp⟩
  | cons j l ih =>
      let next := s.next.write j (withAdvance (s.next.outs j)
        (SingleCycle.computeAdvance (inputAt n s.now j) (s.now.outs j)))
      obtain ⟨s', hfold, hnow, hx, hwritten, houts⟩ := ih { s with next := next }
      refine ⟨s', ?_, hnow, hx, hwritten, ?_⟩
      · rw [List.map_cons, List.foldlM_cons]
        exact hfold
      · intro k
        rw [houts k]
        show (if k ∈ l then withAdvance (next.outs k) _ else next.outs k) = _
        rw [outs_write]
        by_cases hkj : k = j
        · subst hkj
          simp [withAdvance]
        · simp [hkj]

/-! ## Settling -/

/-- After the delta cycle of an edge only advances are left to compute, of stages
before `j`; the registers stand. -/
structure Settling (n : ℕ) (x : ChainInput) (written : ℕ) (regs : ℕ → MutOutput) (j : ℕ)
    (s : Sim) : Prop where
  x : s.now.x = x
  written : s.written = written
  regs : ∀ k < n, hush (s.now.outs k) = hush (regs k)
  due : ∃ l : List ℕ, s.runnable = l.map .computeAdvance ∧ ∀ k ∈ l, k < j

theorem settling_zero {x : ChainInput} {written : ℕ} {regs : ℕ → MutOutput} {s : Sim}
    (h : Settling n x written regs 0 s) : (kernel n drive).runnable s = [] := by
  obtain ⟨l, hl, hbound⟩ := h.due
  have hnil : l = [] := List.eq_nil_iff_forall_not_mem.mpr fun k hk => by
    have := hbound k hk
    omega
  show s.runnable = []
  rw [hl, hnil]
  rfl

/-- A delta cycle of advances makes an advance runnable only if the stage after
it was among them. -/
theorem settling_lower {x : ChainInput} {written : ℕ} {regs : ℕ → MutOutput} {j : ℕ} {s : Sim}
    (hinv : Inv n s) (hrun : (kernel n drive).runnable s ≠ [])
    (h : Settling n x written regs (j + 1) s) :
    ∃ s', (kernel n drive).step id s = .ok s' ∧ Settling n x written regs j s' := by
  obtain ⟨l, hl, hbound⟩ := h.due
  have hcur : s.next = s.now := hinv.current
  obtain ⟨s', hfold, hnow, hx, hwritten, houts⟩ :=
    evaluate_advances n drive l { s with runnable := [] }
  -- the registers of a stage and the signals around the chain are as they were
  have hsame : ∀ k, hush (s'.next.outs k) = hush (s.now.outs k) := by
    intro k
    rw [houts k, ← hcur]
    split <;> rfl
  have hout : s'.next.x = s.now.x := by
    rw [hx]
    exact congrArg Signals.x hcur
  refine ⟨update n s', ?_, hout.trans h.x, hwritten.trans h.written,
    fun k hk => (hsame k).trans (h.regs k hk), (List.range n).filter (senses n s'), rfl, ?_⟩
  · have hlist : (kernel n drive).runnable s = l.map .computeAdvance := hl
    rw [Kernel.step_of_busy hrun, hlist]
    exact congrArg (Except.map (update n)) hfold
  · intro k hk
    have hsense := (List.mem_filter.mp hk).2
    have hstall : (s'.next.outs k).ctl.is_stall = (s'.now.outs k).ctl.is_stall := by
      rw [hnow]
      exact congrArg (fun out => out.ctl.is_stall) (hsame k)
    have hvalid : (s'.next.outs k).ctl.is_valid = (s'.now.outs k).ctl.is_valid := by
      rw [hnow]
      exact congrArg (fun out => out.ctl.is_valid) (hsame k)
    rw [senses, hstall, hvalid, bne_self_eq_false, bne_self_eq_false, Bool.or_false,
      Bool.or_false, bne_iff_ne, hnow, advanceAfter, advanceAfter, hout] at hsense
    by_cases hlast : k + 1 < n
    · rw [if_pos hlast, if_pos hlast, houts (k + 1)] at hsense
      by_cases hmem : k + 1 ∈ l
      · have := hbound (k + 1) hmem
        omega
      · rw [if_neg hmem] at hsense
        exact absurd (congrArg (fun s : Signals => (s.outs (k + 1)).ctl.is_advance) hcur) hsense
    · rw [if_neg hlast, if_neg hlast] at hsense
      exact absurd rfl hsense

/-- The advances settle in no more delta cycles than there are stages. -/
theorem settles {x : ChainInput} {written : ℕ} {regs : ℕ → MutOutput} {s : Sim} (hinv : Inv n s)
    (h : Settling n x written regs n s) :
    ∃ m s', m ≤ n ∧ Kernel.LeadsIn (kernel n drive) m s s' ∧ Inv n s' ∧ s'.runnable = [] ∧
      s'.now.x = x ∧ s'.written = written ∧ ∀ k < n, hush (s'.now.outs k) = hush (regs k) := by
  obtain ⟨m, s', hm, hleads, hinv', hidle, i, hi⟩ :=
    kernel_confluent.settles (fun s => settling_zero)
      (fun j s hs hr hP => settling_lower hs hr hP) n s hinv h
  exact ⟨m, s', hm, hleads, hinv', hidle, hi.x, hi.written, hi.regs⟩

/-! ## Clocks -/

/-- Nothing is runnable and the next rising edge is awaited, after `c` of them. -/
structure AtRest (n : ℕ) (drive : ℕ → ChainInput) (c : ℕ) (s : Sim) : Prop where
  inv : Inv n s
  idle : s.runnable = []
  x : s.now.x = drive c
  written : s.written = c + 1

theorem map_hush_view {s : Signals} {regs : ℕ → MutOutput}
    (h : ∀ k < n, hush (s.outs k) = hush (regs k)) :
    (view n s).map hush = (stagesFrom regs 0 n).map hush := by
  rw [view, stagesFrom, stagesFrom, List.map_map, List.map_map]
  apply List.map_congr_left
  intro k hk
  exact h k (by simpa using (List.mem_range'_1.mp hk).2)

/-- At rest every advance is settled, so the signals follow from the registers. -/
theorem view_atRest {c : ℕ} {s : Sim} (h : AtRest n drive c s) {regs : ℕ → MutOutput}
    (hregs : ∀ k < n, hush (s.now.outs k) = hush (regs k)) :
    view n s.now = settleChain (drive c) (stagesFrom regs 0 n) := by
  have hsettled : IsSettled s.now.x 0 (upAt s.now 0) (view n s.now) := by
    refine isSettled_stagesFrom (fun k hk => h.inv.computed k hk ?_) (Nat.zero_add n)
    rw [h.idle]
    exact List.not_mem_nil
  have hview := eq_settleFrom hsettled
  rw [settleFrom_congr (map_hush_view hregs), h.x] at hview
  rw [← hview, settleChain]
  show settleFrom (drive c) 0 s.now.x.source _ = _
  rw [h.x]

/-- The registers settle from the delta cycle of an edge to the next rest. -/
theorem rest_of_settling {c : ℕ} {regs : ℕ → MutOutput} {s : Sim} (hinv : Inv n s)
    (h : Settling n (drive c) (c + 1) regs n s) :
    ∃ m s', m ≤ n ∧ Kernel.LeadsIn (kernel n drive) m s s' ∧ AtRest n drive c s' ∧
      ∀ k < n, hush (s'.now.outs k) = hush (regs k) := by
  obtain ⟨m, s', hm, hleads, hinv', hidle, hx, hwritten, hregs⟩ := settles hinv h
  exact ⟨m, s', hm, hleads, ⟨hinv', hidle, hx, hwritten⟩, hregs⟩

theorem withAdvance_unwritten (n k : ℕ) :
    ∃ out, SingleCycle.cycle (inputAt n unwritten k) (unwritten.outs k) = .ok out ∧
      hush out = hush initialised := by
  refine ⟨_, rfl, ?_⟩
  cases k <;> rfl

/-- From power up to the first rest. -/
theorem leads_powerUp (n : ℕ) (drive : ℕ → ChainInput) :
    ∃ m s, m ≤ n + 1 ∧ Kernel.LeadsIn (kernel n drive) m (powerUp n) s ∧ AtRest n drive 0 s ∧
      ∀ k < n, hush (s.now.outs k) = hush initialised := by
  choose c hc hreset using withAdvance_unwritten n
  let s₀ : Sim := ⟨unwritten, { unwritten with x := drive 0 }, 1, []⟩
  obtain ⟨s₁, hfold₁, hnow₁, hx₁, hwritten₁, houts₁⟩ :=
    evaluate_cycles drive (List.range n) (s := s₀) fun k _ => hc k
  obtain ⟨s₂, hfold₂, hnow₂, hx₂, hwritten₂, houts₂⟩ :=
    evaluate_advances n drive (List.range n) s₁
  have hstep : (kernel n drive).step id (powerUp n) = .ok (update n s₂) := by
    have hbusy : (kernel n drive).runnable (powerUp n) ≠ [] := List.cons_ne_nil _ _
    rw [Kernel.step_of_busy hbusy]
    show (((Process.surroundings :: (List.range n).map Process.cycle ++
      (List.range n).map Process.computeAdvance).foldlM (evaluate n drive) _).map (update n)) = _
    rw [List.foldlM_append, List.foldlM_cons]
    show (((((List.range n).map Process.cycle).foldlM (evaluate n drive) s₀).bind _).map _) = _
    rw [hfold₁]
    exact congrArg (Except.map (update n)) hfold₂
  have hsettling : Settling n (drive 0) (0 + 1) (fun _ => initialised) n (update n s₂) := by
    refine ⟨hx₂.trans hx₁, hwritten₂.trans hwritten₁, ?_,
      (List.range n).filter (senses n s₂), rfl, ?_⟩
    · intro k hk
      show hush (s₂.next.outs k) = _
      rw [houts₂ k, houts₁ k, if_pos (List.mem_range.mpr hk), if_pos (List.mem_range.mpr hk),
        ← hreset k]
      rfl
    · intro k hk
      exact List.mem_range.mp (List.mem_filter.mp hk).1
  obtain ⟨hone, hinv⟩ := kernel_confluent.leadsIn inv_powerUp hstep
  obtain ⟨m, s, hm, hleads, hrest, hregs⟩ := rest_of_settling hinv hsettling
  exact ⟨1 + m, s, by omega, hone.trans hleads, hrest, hregs⟩

/-- One clock: every stage cycles on the settled signals, the surroundings write
their next inputs, and the advances settle. -/
theorem leads_clock {c : ℕ} {s : Sim} (h : AtRest n drive c s) :
    ∃ m s', ∃ regs : ℕ → MutOutput, m ≤ n + 2 ∧
      Kernel.LeadsIn (kernel n drive) m s s' ∧ AtRest n drive (c + 1) s' ∧
      (∀ k < n, SingleCycle.cycle (inputAt n s.now k) (s.now.outs k) = .ok (regs k)) ∧
      ∀ k < n, hush (s'.now.outs k) = hush (regs k) := by
  have hcycles : ∀ k, ∃ out, SingleCycle.cycle (inputAt n s.now k) (s.now.outs k) = .ok out := by
    intro k
    obtain ⟨out, hout, -⟩ := cycle_unstalled (inputAt n s.now k) (h.inv.unstalled k)
    exact ⟨out, hout⟩
  choose regs hregs using hcycles
  have hposedge : (kernel n drive).step id s = .ok (posedge n s) := by
    have hidle : (kernel n drive).runnable s = [] := h.idle
    rw [Kernel.step, hidle]
    rfl
  obtain ⟨hfirst, hinv₁⟩ := kernel_confluent.leadsIn h.inv hposedge
  let s₀ : Sim := ⟨s.now, { s.next with x := drive s.written }, s.written + 1, []⟩
  obtain ⟨s₁, hfold, hnow, hx, hwritten, houts⟩ :=
    evaluate_cycles drive (List.range n) (s := s₀) fun k _ => hregs k
  have hstep : (kernel n drive).step id (posedge n s) = .ok (update n s₁) := by
    have hbusy : (kernel n drive).runnable (posedge n s) ≠ [] := List.cons_ne_nil _ _
    rw [Kernel.step_of_busy hbusy]
    show (((Process.surroundings :: (List.range n).map Process.cycle).foldlM (evaluate n drive)
      _).map (update n)) = _
    rw [List.foldlM_cons]
    exact congrArg (Except.map (update n)) hfold
  obtain ⟨hsecond, hinv₂⟩ := kernel_confluent.leadsIn hinv₁ hstep
  have hsettling : Settling n (drive (c + 1)) (c + 1 + 1) regs n (update n s₁) := by
    refine ⟨?_, ?_, ?_, (List.range n).filter (senses n s₁), rfl, ?_⟩
    · rw [← h.written]
      exact hx
    · rw [← h.written]
      exact hwritten
    · intro k hk
      show hush (s₁.next.outs k) = _
      rw [houts k, if_pos (List.mem_range.mpr hk)]
      rfl
    · intro k hk
      exact List.mem_range.mp (List.mem_filter.mp hk).1
  obtain ⟨m, s', hm, hleads, hrest, hregs'⟩ := rest_of_settling hinv₂ hsettling
  exact ⟨1 + 1 + m, s', regs, by omega, (hfirst.trans hsecond).trans hleads, hrest,
    fun k _ => hregs k, hregs'⟩

/-! ## Edges -/

theorem count_surroundings (f : ℕ → Process) (hf : ∀ k, f k ≠ .surroundings) (l : List ℕ) :
    (l.map f).count .surroundings = 0 := by
  rw [List.count_eq_zero, List.mem_map]
  rintro ⟨k, -, hk⟩
  exact hf k hk

/-- The surroundings write their inputs when time moves on, and only then. -/
theorem surroundings_woken (n : ℕ) (drive : ℕ → ChainInput) :
    Kernel.Woken (kernel n drive) .surroundings (fun _ => True) Sim.written where
  counted :=
    { refl := fun _ => rfl
      trans := Kernel.Raises.trans
      evaluate := by
        intro s s' p _ heval
        refine ⟨trivial, ?_⟩
        cases p with
        | surroundings =>
            simp only [kernel, evaluate, Except.ok.injEq] at heval
            rw [← heval]
            rfl
        | cycle k =>
            cases hcycle : SingleCycle.cycle (inputAt n s.now k) (s.now.outs k) with
            | error e => simp [kernel, evaluate, hcycle] at heval
            | ok out =>
                simp only [kernel, evaluate, hcycle, Except.ok.injEq] at heval
                rw [← heval]
                rfl
        | computeAdvance k =>
            simp only [kernel, evaluate, Except.ok.injEq] at heval
            rw [← heval]
            rfl
      enter := fun _ => ⟨trivial, rfl⟩
      update := fun _ => ⟨trivial, rfl⟩
      advance := fun _ => ⟨trivial, rfl⟩ }
  update := fun s => count_surroundings _ (fun _ => Process.noConfusion) _
  advance := by
    intro s _ _
    show (Process.surroundings :: (List.range n).map .cycle).count .surroundings = 1
    rw [List.count_cons_self, count_surroundings _ fun _ => Process.noConfusion]

/-- The inputs written tell how often time has moved on. -/
theorem edges_atRest {c m : ℕ} {s : Sim} (h : AtRest n drive c s) {sched : Schedule Process}
    (hrun : (kernel n drive).run sched (powerUp n) m = .ok s) :
    (kernel n drive).edges sched (powerUp n) m = c := by
  have hfirst : (kernel n drive).runnable (powerUp n) = .surroundings ::
      ((List.range n).map .cycle ++ (List.range n).map .computeAdvance) := rfl
  obtain ⟨-, hcount⟩ := (surroundings_woken n drive).run trivial (by
    rw [hfirst, List.count_cons_self, List.count_append,
      count_surroundings _ fun _ => Process.noConfusion,
      count_surroundings _ fun _ => Process.noConfusion]
    rfl) hrun
  rw [show (kernel n drive).runnable s = [] from h.idle, h.written] at hcount
  exact (Nat.succ.inj hcount).symm

/-- **The kernel runs the chain.** For any number of stages, whatever the
surroundings drive and in whatever order the processes of a delta cycle are
evaluated: after `c` rising edges the signals come to rest, and there they are
those of `c` edges of the chain with every advance settled. Of the steps it has
taken, `c` are the edges, and at most `(c + 1) * (n + 1)` are delta cycles in which
a process of the chain is evaluated. -/
theorem chain_clocks (n : ℕ) (drive : ℕ → ChainInput) (c : ℕ) :
    ∃ m s edges, m ≤ c + (c + 1) * (n + 1) ∧
      (∀ sched, (kernel n drive).run sched (powerUp n) m = .ok s ∧
        (kernel n drive).edges sched (powerUp n) m = c) ∧
      s.runnable = [] ∧ s.now.x = drive c ∧
      history chainEdge (List.replicate n initialised) ((List.range c).map drive) = .ok edges ∧
      view n s.now = settleChain (drive c) (final (List.replicate n initialised) edges) := by
  have hstart : stagesFrom (fun _ => initialised) 0 n = List.replicate n initialised := by
    rw [stagesFrom, List.map_const', List.length_range']
  have hrun : ∃ m s edges, m ≤ c + (c + 1) * (n + 1) ∧
      Kernel.LeadsIn (kernel n drive) m (powerUp n) s ∧ AtRest n drive c s ∧
      history chainEdge (List.replicate n initialised) ((List.range c).map drive) = .ok edges ∧
      view n s.now = settleChain (drive c) (final (List.replicate n initialised) edges) := by
    induction c with
    | zero =>
        obtain ⟨m, s, hm, hleads, hrest, hregs⟩ := leads_powerUp n drive
        refine ⟨m, s, [], by omega, hleads, hrest, rfl, ?_⟩
        rw [view_atRest hrest hregs, hstart]
        rfl
    | succ c ih =>
        obtain ⟨m, s, edges, hm, hleads, hrest, hhist, hview⟩ := ih
        obtain ⟨m', s', regs, hm', hleads', hrest', hcycles, hregs⟩ := leads_clock hrest
        have hedge : chainEdge (final (List.replicate n initialised) edges) (drive c) =
            .ok (stagesFrom regs 0 n) := by
          rw [chainEdge, ← hview, ← hrest.x]
          exact cycleFrom_stagesFrom hcycles (Nat.zero_add n)
        let e : Edge (List MutOutput) ChainInput :=
          ⟨final (List.replicate n initialised) edges, drive c, stagesFrom regs 0 n⟩
        refine ⟨m + m', s', edges ++ [e], ?_, hleads.trans hleads', hrest', ?_, ?_⟩
        · rw [Nat.succ_mul (c + 1)]
          omega
        · rw [List.range_succ, List.map_append]
          exact history_append hhist (history_cons hedge rfl)
        · rw [view_atRest hrest' hregs, final_append]
          rfl
  obtain ⟨m, s, edges, hm, hleads, hrest, hhist, hview⟩ := hrun
  exact ⟨m, s, edges, hm, fun sched => ⟨hleads sched, edges_atRest hrest (hleads sched)⟩,
    hrest.idle, hrest.x, hhist, hview⟩

end PipelineBench.ChainKernel
