import PipelineBench.Verify.Conservation

/-!
# Chains of modules

Modules joined by the ports the class offers: valid and value go forward, the
combinational advance comes back, reset and flush are common. Diagnostic ports
of each stage are free. A chain is a list of outputs from source to sink.
-/

namespace PipelineBench.Chain

open PipelineBench.Run PipelineBench.SingleCycle PipelineBench.Conservation

/-! ## The wiring -/

/-- The forward signals between two stages. -/
structure Link where
  is_valid : Bool
  value : Word
  deriving DecidableEq, Repr

def link (out : MutOutput) : Link := ⟨out.ctl.is_valid, out.data.value⟩

/-- What the surroundings drive during one clock. -/
structure ChainInput where
  reset : Bool
  is_flush : Bool
  source : Link
  sink_is_advance : Bool
  debug : ℕ → DebugIn

/-- The advance a stage reads: that of the next stage, or of the sink. -/
def nextAdvance (x : ChainInput) : List MutOutput → Bool
  | [] => x.sink_is_advance
  | out :: _ => out.ctl.is_advance

/-- The input signals of stage `i`, fed by `up` and followed by `rest`. -/
def stageInput (x : ChainInput) (i : ℕ) (up : Link) (rest : List MutOutput) : MutInput where
  ctl := ⟨x.reset, nextAdvance x rest, x.is_flush, up.is_valid⟩
  data := ⟨up.value⟩
  debug := x.debug i

/-- Every `compute_advance` once settled; it settles from the sink backward. -/
def settleFrom (x : ChainInput) : ℕ → Link → List MutOutput → List MutOutput
  | _, _, [] => []
  | i, up, out :: rest =>
      let rest' := settleFrom x (i + 1) (link out) rest
      settle (stageInput x i up rest') out :: rest'

/-- One `cycle` of every stage, each on the signals before the edge. -/
def cycleFrom (x : ChainInput) : ℕ → Link → List MutOutput → Except Abort (List MutOutput)
  | _, _, [] => .ok []
  | i, up, out :: rest => do
      let out' ← cycle (stageInput x i up rest) out
      let rest' ← cycleFrom x (i + 1) (link out) rest
      return out' :: rest'

def settleChain (x : ChainInput) (outs : List MutOutput) : List MutOutput :=
  settleFrom x 0 x.source outs

def chainEdge (outs : List MutOutput) (x : ChainInput) : Except Abort (List MutOutput) :=
  cycleFrom x 0 x.source (settleChain x outs)

/-- No `compute_advance` has anything left to change. -/
def IsSettled (x : ChainInput) : ℕ → Link → List MutOutput → Prop
  | _, _, [] => True
  | i, up, out :: rest =>
      out.ctl.is_advance = computeAdvance (stageInput x i up rest) out ∧
        IsSettled x (i + 1) (link out) rest

theorem isSettled_settleFrom (x : ChainInput) (i : ℕ) (up : Link) (outs : List MutOutput) :
    IsSettled x i up (settleFrom x i up outs) := by
  induction outs generalizing i up with
  | nil => trivial
  | cons out rest ih => exact ⟨rfl, ih (i + 1) (link out)⟩

/-- The settled signals are the only ones consistent with the registers. -/
theorem eq_settleFrom {x : ChainInput} {i : ℕ} {up : Link} {outs : List MutOutput}
    (h : IsSettled x i up outs) : settleFrom x i up outs = outs := by
  induction outs generalizing i up with
  | nil => rfl
  | cons out rest ih =>
      rw [settleFrom, ih h.2]
      simp only [settle, ← h.1]

/-! ## The chain is an elastic chain -/

def slot (out : MutOutput) : Option Word := (held out).map Datum.value

def linkSlot (up : Link) : Option Word := if up.is_valid then some up.value else none

def Kills (x : ChainInput) : Prop := x.reset = false ∨ x.is_flush = true

instance (x : ChainInput) : Decidable (Kills x) := by
  unfold Kills; infer_instance

theorem slot_eq (out : MutOutput) :
    slot out = if out.ctl.is_valid then some out.data.value else none := by
  cases hv : out.ctl.is_valid <;> simp [slot, held, hv, registers]

theorem linkSlot_link (out : MutOutput) : linkSlot (link out) = slot out := by
  rw [slot_eq]; rfl

theorem slot_isNone (out : MutOutput) : (slot out).isNone = !out.ctl.is_valid := by
  rw [slot, Option.isNone_map, isNone_held]

theorem slot_eq_none_iff (out : MutOutput) : slot out = none ↔ out.ctl.is_valid = false := by
  rw [← Option.isNone_iff_eq_none, slot_isNone]
  cases out.ctl.is_valid <;> simp

/-- Back-pressure: the advance offered by a chain is its readiness. -/
theorem nextAdvance_settleFrom (x : ChainInput) (i : ℕ) (up : Link) {outs : List MutOutput}
    (h : ∀ out ∈ outs, Unstalled out) :
    nextAdvance x (settleFrom x i up outs) =
      Elastic.ready x.sink_is_advance (outs.map slot) := by
  induction outs generalizing i up with
  | nil => rfl
  | cons out rest ih =>
      have hrest := ih (i + 1) (link out) fun o ho => h o (List.mem_cons_of_mem _ ho)
      have hout := h out (List.mem_cons_self ..)
      rw [List.map_cons, Elastic.ready, slot_isNone, ← hrest]
      exact computeAdvance_of_unstalled hout

/-- One stage of the chain, its value alone. -/
theorem slot_after {x : ChainInput} {i : ℕ} {up : Link} {rest : List MutOutput}
    {out out' : MutOutput} (hun : Unstalled out)
    (h : EdgeSpec out (stageInput x i up rest) out') :
    slot out' = Elastic.stage (decide (Kills x)) (nextAdvance x rest) (~~~ ·)
      (linkSlot up) (slot out) := by
  have hoff : (offered (stageInput x i up rest)).map Datum.value = linkSlot up := by
    cases hv : up.is_valid <;> simp [offered, stageInput, linkSlot, presented, hv]
  rw [slot, held_after hun h, Elastic.stage_map (g := (~~~ ·)) (fun _ => rfl), hoff]
  rfl

/-- One edge of the chain, by induction from the source. -/
theorem cycleFrom_spec (x : ChainInput) (i : ℕ) (up : Link) {outs : List MutOutput}
    (h : ∀ out ∈ outs, Unstalled out) :
    ∃ outs', cycleFrom x i up (settleFrom x i up outs) = .ok outs' ∧
      (∀ out ∈ outs', Unstalled out) ∧
      outs'.map slot = Elastic.chain (decide (Kills x)) x.sink_is_advance (~~~ ·)
        (linkSlot up) (outs.map slot) := by
  induction outs generalizing i up with
  | nil => exact ⟨[], rfl, by simp, rfl⟩
  | cons out rest ih =>
      have hout := h out (List.mem_cons_self ..)
      have hrest : ∀ o ∈ rest, Unstalled o := fun o ho => h o (List.mem_cons_of_mem _ ho)
      obtain ⟨rest', hcyc, hun', hslots⟩ := ih (i + 1) (link out) hrest
      obtain ⟨out', hedge, hspec⟩ :=
        edge_spec (stageInput x i up (settleFrom x (i + 1) (link out) rest)) hout
      have hslot := slot_after hout hspec
      rw [nextAdvance_settleFrom x (i + 1) (link out) hrest] at hslot
      refine ⟨out' :: rest', ?_, ?_, ?_⟩
      · rw [edge] at hedge
        have hlink : ∀ inp, link (settle inp out) = link out := fun _ => rfl
        simp only [settleFrom, cycleFrom, hlink, hedge, hcyc, bind, Except.bind, pure,
          Except.pure]
      · intro o ho
        rcases List.mem_cons.mp ho with rfl | ho
        · exact hspec.is_stall
        · exact hun' o ho
      · rw [List.map_cons, List.map_cons, Elastic.chain, hslots, hslot, linkSlot_link]

/-- No stage stalls, and the number of stages is kept. -/
def Sound (n : ℕ) (outs : List MutOutput) : Prop :=
  outs.length = n ∧ ∀ out ∈ outs, Unstalled out

theorem chainEdge_spec {n : ℕ} {outs : List MutOutput} (x : ChainInput) (h : Sound n outs) :
    ∃ outs', chainEdge outs x = .ok outs' ∧ Sound n outs' ∧
      outs'.map slot = Elastic.chain (decide (Kills x)) x.sink_is_advance (~~~ ·)
        (linkSlot x.source) (outs.map slot) := by
  obtain ⟨outs', hedge, hun, hslots⟩ := cycleFrom_spec x 0 x.source h.2
  refine ⟨outs', hedge, ⟨?_, hun⟩, hslots⟩
  have hlen := congrArg List.length hslots
  rw [List.length_map, Elastic.length_chain, List.length_map, h.1] at hlen
  exact hlen

/-! ## The account of a stretch of edges -/

/-- The value stage 1 accepts at an edge. -/
def accepted (e : Edge (List MutOutput) ChainInput) : Option Word :=
  match (settleChain e.input e.before).head? with
  | some out =>
      if e.input.reset = true ∧ e.input.is_flush = false ∧ e.input.source.is_valid = true ∧
          out.ctl.is_advance = true then
        some e.input.source.value
      else none
  | none => none

/-- The value the last stage delivers to the sink at an edge. -/
def delivered (e : Edge (List MutOutput) ChainInput) : Option Word :=
  match e.before.getLast? with
  | some out =>
      if e.input.reset = true ∧ e.input.is_flush = false ∧ out.ctl.is_valid = true ∧
          e.input.sink_is_advance = true then
        some out.data.value
      else none
  | none => none

/-- One complement for each of `n` stages. -/
def complements (n : ℕ) (v : Word) : Word := (~~~ ·)^[n] v

/-- The values held from the last stage back to stage 1, that of stage `k`
complemented `k` times. -/
def inFlight (outs : List MutOutput) : List Word :=
  ((outs.zipIdx 1).filterMap fun (out, k) =>
    if out.ctl.is_valid then some (complements k out.data.value) else none).reverse

theorem contents_eq_inFlight (outs : List MutOutput) (k : ℕ) :
    (Elastic.contents (~~~ ·) (outs.map slot)).map (complements k) =
      ((outs.zipIdx (k + 1)).filterMap fun (out, k) =>
        if out.ctl.is_valid then some (complements k out.data.value) else none).reverse := by
  induction outs generalizing k with
  | nil => rfl
  | cons out rest ih =>
      have hstep : ∀ l : List Word, (l.map (~~~ ·)).map (complements k) =
          l.map (complements (k + 1)) := by
        intro l
        rw [List.map_map]
        rfl
      rw [List.map_cons, Elastic.contents, hstep, List.map_append, ih (k + 1), List.zipIdx_cons,
        slot_eq]
      cases hv : out.ctl.is_valid <;> simp [hv]

theorem inFlight_eq (outs : List MutOutput) :
    inFlight outs = Elastic.contents (~~~ ·) (outs.map slot) := by
  have h := contents_eq_inFlight outs 0
  have hzero : complements 0 = id := rfl
  rw [hzero, List.map_id] at h
  exact h.symm

theorem head_settleChain (x : ChainInput) {outs : List MutOutput} (hne : outs ≠ [])
    (h : ∀ out ∈ outs, Unstalled out) :
    ∃ out, (settleChain x outs).head? = some out ∧
      out.ctl.is_advance = Elastic.ready x.sink_is_advance (outs.map slot) := by
  have hready := nextAdvance_settleFrom x 0 x.source h
  cases outs with
  | nil => exact absurd rfl hne
  | cons out rest => exact ⟨_, rfl, hready⟩

theorem deliver_getLast (sink : Bool) (up : Option Word) {outs : List MutOutput}
    (hne : outs ≠ []) :
    Elastic.deliver sink up (outs.map slot) =
      if sink then slot (outs.getLast hne) else none := by
  induction outs generalizing up with
  | nil => exact absurd rfl hne
  | cons out rest ih =>
      cases rest with
      | nil => rfl
      | cons out' rest => exact ih (slot out) (List.cons_ne_nil _ _)

/-- Stage 1 accepts what is offered when the chain is ready. -/
theorem accepted_eq_offered {e : Edge (List MutOutput) ChainInput} (hne : e.before ≠ [])
    (hun : ∀ out ∈ e.before, Unstalled out)
    (hrun : e.input.reset = true ∧ e.input.is_flush = false) :
    accepted e =
      if Elastic.ready e.input.sink_is_advance (e.before.map slot) then
        linkSlot e.input.source else none := by
  rcases head_settleChain e.input hne hun with ⟨out, hhead, hadv⟩
  rw [accepted, hhead, ← hadv]
  cases hs : e.input.source.is_valid <;> cases ha : out.ctl.is_advance <;>
    simp [hrun.1, hrun.2, hs, ha, linkSlot]

/-- The last stage delivers what the elastic chain delivers. -/
theorem delivered_eq_deliver {e : Edge (List MutOutput) ChainInput} (hne : e.before ≠ [])
    (hrun : e.input.reset = true ∧ e.input.is_flush = false) :
    delivered e =
      Elastic.deliver e.input.sink_is_advance (linkSlot e.input.source) (e.before.map slot) := by
  rw [deliver_getLast _ _ hne, delivered, List.getLast?_eq_some_getLast hne, slot_eq]
  cases hs : e.input.sink_is_advance <;>
    cases hv : (e.before.getLast hne).ctl.is_valid <;> simp [hrun.1, hrun.2, hv]

/-- An edge that neither resets nor flushes conserves the values in the chain. -/
theorem chainEdge_conserves {n : ℕ} {e : Edge (List MutOutput) ChainInput} (hn : 0 < n)
    (h : Sound n e.before) (he : chainEdge e.before e.input = .ok e.after)
    (hrun : e.input.reset = true ∧ e.input.is_flush = false) :
    Elastic.Conserves inFlight accepted (fun e => (delivered e).map (complements n)) e := by
  have hne : e.before ≠ [] := List.ne_nil_of_length_pos (h.1 ▸ hn)
  rcases chainEdge_spec e.input h with ⟨outs', hedge, -, hslots⟩
  rw [he, Except.ok.injEq] at hedge
  subst hedge
  have hkill : ¬ Kills e.input := by simp [Kills, hrun.1, hrun.2]
  rw [decide_eq_false hkill] at hslots
  have hsum := Elastic.chain_conserves (f := (~~~ ·)) (g := (~~~ ·))
    (fun a => BitVec.not_not) e.input.sink_is_advance (linkSlot e.input.source)
    (e.before.map slot)
  rw [Elastic.Conserves, inFlight_eq, inFlight_eq, accepted_eq_offered hne h.2 hrun,
    delivered_eq_deliver hne hrun, hslots]
  rw [List.length_map, h.1] at hsum
  exact hsum

/-- Stage 1 is ready when some stage is empty or the sink advances. -/
theorem head_isAdvance_iff (x : ChainInput) {outs : List MutOutput} (hne : outs ≠ [])
    (h : ∀ out ∈ outs, Unstalled out) :
    ∃ first, (settleChain x outs).head? = some first ∧
      (first.ctl.is_advance = true ↔
        (∃ out ∈ outs, out.ctl.is_valid = false) ∨ x.sink_is_advance = true) := by
  rcases head_settleChain x hne h with ⟨first, hhead, hadv⟩
  refine ⟨first, hhead, ?_⟩
  rw [hadv, Elastic.ready_iff, List.mem_map]
  simp only [slot_eq_none_iff]

/-- A reset or flush empties every stage. -/
theorem chainEdge_empties {n : ℕ} {x : ChainInput} {outs outs' : List MutOutput}
    (h : Sound n outs) (he : chainEdge outs x = .ok outs') (hkill : Kills x) :
    ∀ out ∈ outs', out.ctl.is_valid = false := by
  intro out hout
  rcases chainEdge_spec x h with ⟨outs₁, hedge, -, hslots⟩
  rw [he, Except.ok.injEq] at hedge
  subst hedge
  rw [decide_eq_true hkill, Elastic.chain_kill] at hslots
  have hslot : slot out ∈ outs'.map slot := List.mem_map_of_mem hout
  rw [hslots, List.mem_map] at hslot
  rcases hslot with ⟨_, -, hnone⟩
  exact (slot_eq_none_iff out).mp hnone.symm

theorem inFlight_empty {outs : List MutOutput} (h : ∀ out ∈ outs, out.ctl.is_valid = false) :
    inFlight outs = [] := by
  rw [inFlight_eq]
  apply Elastic.contents_empty
  intro s hs
  rcases List.mem_map.mp hs with ⟨out, hout, rfl⟩
  exact (slot_eq_none_iff out).mpr (h out hout)

/-- The account of a stretch that neither resets nor flushes. -/
theorem stretch_conserves {n : ℕ} (hn : 0 < n) {outs : List MutOutput} {stream : List ChainInput}
    {stretch : List (Edge (List MutOutput) ChainInput)}
    (hrun : history chainEdge outs stream = .ok stretch)
    (hedges : ∀ e ∈ stretch, Sound n e.before ∧ chainEdge e.before e.input = .ok e.after)
    (hgo : ∀ e ∈ stretch, e.input.reset = true ∧ e.input.is_flush = false)
    (hempty : ∀ out ∈ outs, out.ctl.is_valid = false) :
    stretch.filterMap accepted =
      (stretch.filterMap delivered).map (complements n) ++ inFlight (final outs stretch) := by
  have hcons := Elastic.conserves_run hrun fun e he =>
    chainEdge_conserves hn (hedges e he).1 (hedges e he).2 (hgo e he)
  rw [inFlight_empty hempty, List.nil_append, ← List.map_filterMap] at hcons
  exact hcons

/-- **Composition with back-pressure.** Every run of a chain from stages that
hold nothing succeeds. Before every edge stage 1 is ready exactly when some stage
is empty or the sink advances; a reset or flush empties every stage; and over a
stretch of edges without either, what stage 1 accepts is what the last stage
delivers followed by what is in flight. -/
theorem chain_backpressure (n : ℕ) (hn : 2 ≤ n) (outs : List MutOutput) (hlen : outs.length = n)
    (hstart : ∀ out ∈ outs, out.ctl.is_valid = false ∧ out.ctl.is_stall = false)
    (stream : List ChainInput) :
    ∃ edges, history chainEdge outs stream = .ok edges ∧
      (∀ e ∈ edges, e.before.length = n ∧
        ∃ first, (settleChain e.input e.before).head? = some first ∧
          (first.ctl.is_advance = true ↔
            (∃ out ∈ e.before, out.ctl.is_valid = false) ∨ e.input.sink_is_advance = true)) ∧
      (∀ e ∈ edges, e.input.reset = false ∨ e.input.is_flush = true →
        ∀ out ∈ e.after, out.ctl.is_valid = false) ∧
      ∀ pre stretch post, edges = pre ++ stretch ++ post →
        (∀ e ∈ stretch, e.input.reset = true ∧ e.input.is_flush = false) →
        (∀ out ∈ final outs pre, out.ctl.is_valid = false) →
        stretch.filterMap accepted =
          (stretch.filterMap delivered).map (complements n) ++
            inFlight (final (final outs pre) stretch) := by
  have htotal : Total chainEdge (Sound n) := by
    intro s x hs
    obtain ⟨s', hedge, hs', -⟩ := chainEdge_spec x hs
    exact ⟨s', hedge, hs'⟩
  have hsound : Sound n outs := ⟨hlen, fun out ho => (hstart out ho).2⟩
  obtain ⟨edges, hrun, -, hedges⟩ :=
    htotal.forall_edges
      (Q := fun e => Sound n e.before ∧ chainEdge e.before e.input = .ok e.after)
      (fun _ _ _ hs he => ⟨hs, he⟩) stream hsound
  refine ⟨edges, hrun, ?_, ?_, ?_⟩
  · intro e he
    rcases hedges e he with ⟨hs, -⟩
    have hne : e.before ≠ [] := List.ne_nil_of_length_pos (by rw [hs.1]; omega)
    exact ⟨hs.1, head_isAdvance_iff e.input hne hs.2⟩
  · intro e he hkill
    exact chainEdge_empties (hedges e he).1 (hedges e he).2 hkill
  · rintro pre stretch post rfl hgo hempty
    have hstretch := (history_split (history_split hrun).1).2
    apply stretch_conserves (by omega) hstretch ?_ hgo hempty
    intro e he
    exact hedges e (List.mem_append_left _ (List.mem_append_right _ he))

/-- Two stages take two data, the second while the first moves on. -/
theorem chain_backpressure_two :
    ∃ edges, history chainEdge [initialised, initialised]
        [⟨true, false, ⟨true, 5⟩, false, fun _ => ⟨0, 0, false, ""⟩⟩,
          ⟨true, false, ⟨true, 6⟩, false, fun _ => ⟨0, 0, false, ""⟩⟩] = .ok edges ∧
      edges.filterMap accepted =
        (edges.filterMap delivered).map (complements 2) ++
          inFlight (final [initialised, initialised] edges) := by
  obtain ⟨edges, hrun, -, -, hsum⟩ :=
    chain_backpressure 2 (by decide) [initialised, initialised] rfl (by simp [initialised])
      [⟨true, false, ⟨true, 5⟩, false, fun _ => ⟨0, 0, false, ""⟩⟩,
        ⟨true, false, ⟨true, 6⟩, false, fun _ => ⟨0, 0, false, ""⟩⟩]
  refine ⟨edges, hrun, hsum [] edges [] (by simp) ?_ (by simp [initialised])⟩
  intro e he
  have hmem := List.mem_map_of_mem (f := Edge.input) he
  rw [history_inputs hrun] at hmem
  simp only [List.mem_cons, List.not_mem_nil, or_false] at hmem
  rcases hmem with h | h <;> rw [h] <;> exact ⟨rfl, rfl⟩

end PipelineBench.Chain
