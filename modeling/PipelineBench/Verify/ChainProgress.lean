import PipelineBench.Foundation.Throughput
import PipelineBench.Verify.Chain

/-!
# Progress of chains of modules

Conservation says that a chain loses nothing; here is when it delivers. The
slots of a chain of modules move as those of an elastic chain do.
-/

namespace PipelineBench.Chain

open PipelineBench.Run PipelineBench.SingleCycle

def slots (outs : List MutOutput) : List (Option Word) := outs.map slot

/-- What the source offers, as a slot. -/
def offer (x : ChainInput) : Option Word := linkSlot x.source

/-- A chain runs over any inputs. -/
theorem chainEdge_total (n : ℕ) : Total chainEdge (Sound n) := by
  intro s x hs
  obtain ⟨s', hedge, hs', -⟩ := chainEdge_spec x hs
  exact ⟨s', hedge, hs'⟩

/-- An edge without reset or flush, as one of an elastic chain. -/
structure Goes (n : ℕ) (e : Edge (List MutOutput) ChainInput) : Prop where
  sound : Sound n e.before
  run : e.input.reset = true ∧ e.input.is_flush = false
  moves : Elastic.Moves slots ChainInput.sink_is_advance (~~~ ·) offer e

/-- A stretch of edges without either. -/
theorem goes_of_history {n : ℕ} {outs : List MutOutput} (hs : Sound n outs)
    {stream : List ChainInput} (hgo : ∀ x ∈ stream, x.reset = true ∧ x.is_flush = false) :
    ∃ edges, history chainEdge outs stream = .ok edges ∧ ∀ e ∈ edges, Goes n e := by
  obtain ⟨edges, hrun, -, hedges⟩ :=
    (chainEdge_total n).forall_edges (Q := fun e => Sound n e.before ∧
      chainEdge e.before e.input = .ok e.after) (fun _ _ _ hs he => ⟨hs, he⟩) stream hs
  refine ⟨edges, hrun, fun e he => ?_⟩
  obtain ⟨hsound, hedge⟩ := hedges e he
  have hinput : e.input ∈ stream := by
    rw [← history_inputs hrun]
    exact List.mem_map_of_mem he
  have hrunning := hgo e.input hinput
  refine ⟨hsound, hrunning, ?_⟩
  obtain ⟨outs', hedge', -, hslots⟩ := chainEdge_spec e.input hsound
  rw [hedge, Except.ok.injEq] at hedge'
  have hkill : ¬ Kills e.input := by simp [Kills, hrunning.1, hrunning.2]
  rw [decide_eq_false hkill, ← hedge'] at hslots
  exact hslots

/-- The last stage delivers what the elastic chain delivers. -/
theorem delivered_of_goes {n : ℕ} (hn : 0 < n) {e : Edge (List MutOutput) ChainInput}
    (h : Goes n e) :
    delivered e = Elastic.delivery slots ChainInput.sink_is_advance offer e :=
  delivered_eq_deliver (List.ne_nil_of_length_pos (h.sound.1 ▸ hn)) h.run

/-- Under a ready sink stage 1 takes whatever is offered. -/
theorem accepted_of_goes {n : ℕ} (hn : 0 < n) {e : Edge (List MutOutput) ChainInput}
    (h : Goes n e) (hsink : e.input.sink_is_advance = true) : accepted e = offer e.input := by
  have hready : Elastic.ready true (e.before.map slot) = true :=
    Elastic.ready_iff.mpr (Or.inr rfl)
  rw [accepted_eq_offered (List.ne_nil_of_length_pos (h.sound.1 ▸ hn)) h.sound.2 h.run, hsink,
    hready, if_pos rfl]
  rfl

/-- **A chain drains.** Take any stretch of edges without reset or flush at
which the sink advances at least as often as the chain has stages, at whatever
edges. What is in flight at its start is delivered, in order, and before anything
that is accepted later. -/
theorem chain_drains (n : ℕ) (hn : 0 < n) (outs : List MutOutput) (hs : Sound n outs)
    (stream : List ChainInput) (hgo : ∀ x ∈ stream, x.reset = true ∧ x.is_flush = false)
    (hsink : n ≤ stream.countP ChainInput.sink_is_advance) :
    ∃ edges, history chainEdge outs stream = .ok edges ∧
      inFlight outs <+: (edges.filterMap delivered).map (complements n) := by
  obtain ⟨edges, hrun, hedges⟩ := goes_of_history hs hgo
  refine ⟨edges, hrun, ?_⟩
  have hdelivered : edges.filterMap delivered =
      edges.filterMap (Elastic.delivery slots ChainInput.sink_is_advance offer) :=
    List.filterMap_congr fun e he => delivered_of_goes hn (hedges e he)
  have hlen : (slots outs).length = n := (List.length_map _).trans hs.1
  have hcount : (slots outs).length ≤ edges.countP fun e => e.input.sink_is_advance := by
    rw [← history_inputs hrun, List.countP_map] at hsink
    rw [hlen]
    exact hsink
  have hdrain := Elastic.drains (g := (~~~ ·)) (fun a => BitVec.not_not) hrun
    (fun e he => (hedges e he).moves) hcount
  rw [hlen, ← hdelivered] at hdrain
  rw [inFlight_eq]
  exact hdrain

theorem chain_drains_two :
    ∃ edges, history chainEdge [{ initialised with ctl := ⟨true, false, false, true⟩ }, initialised]
        [⟨true, false, ⟨true, 6⟩, true, fun _ => ⟨0, 0, false, ""⟩⟩,
          ⟨true, false, ⟨true, 7⟩, false, fun _ => ⟨0, 0, false, ""⟩⟩,
          ⟨true, false, ⟨false, 0⟩, true, fun _ => ⟨0, 0, false, ""⟩⟩] = .ok edges ∧
      inFlight [{ initialised with ctl := ⟨true, false, false, true⟩ }, initialised] <+:
        (edges.filterMap delivered).map (complements 2) :=
  chain_drains 2 (by decide) _ ⟨rfl, by simp [Unstalled, initialised]⟩ _ (by simp) (by decide)

/-- **A chain under a sink that always advances is a delay line.** Edge by edge
it delivers first what it held, from the last stage back, and then what it
accepts, each datum complemented once for every stage passed and `n` edges after
it was accepted. -/
theorem chain_latency (n : ℕ) (hn : 0 < n) (outs : List MutOutput) (hs : Sound n outs)
    (stream : List ChainInput) (hgo : ∀ x ∈ stream, x.reset = true ∧ x.is_flush = false)
    (hsink : ∀ x ∈ stream, x.sink_is_advance = true) :
    ∃ edges, history chainEdge outs stream = .ok edges ∧
      edges.map delivered =
        (Elastic.ripe (~~~ ·) (slots outs) ++
          edges.map fun e => (accepted e).map (complements n)).take stream.length := by
  obtain ⟨edges, hrun, hedges⟩ := goes_of_history hs hgo
  refine ⟨edges, hrun, ?_⟩
  have hlen : (slots outs).length = n := (List.length_map _).trans hs.1
  have hsinks : ∀ e ∈ edges, e.input.sink_is_advance = true := by
    intro e he
    apply hsink
    rw [← history_inputs hrun]
    exact List.mem_map_of_mem he
  have hline := Elastic.delay_line hrun (fun e he => (hedges e he).moves) hsinks
  rw [hlen, history_length hrun] at hline
  have hdelivered : edges.map delivered =
      edges.map (Elastic.delivery slots ChainInput.sink_is_advance offer) :=
    List.map_congr_left fun e he => delivered_of_goes hn (hedges e he)
  have haccepted : (edges.map fun e => (accepted e).map (complements n)) =
      edges.map fun e => (offer e.input).map (~~~ ·)^[n] := by
    apply List.map_congr_left
    intro e he
    rw [accepted_of_goes hn (hedges e he) (hsinks e he)]
    rfl
  rw [hdelivered, haccepted, hline]

theorem chain_latency_two :
    ∃ edges, history chainEdge [initialised, initialised]
        [⟨true, false, ⟨true, 6⟩, true, fun _ => ⟨0, 0, false, ""⟩⟩,
          ⟨true, false, ⟨false, 0⟩, true, fun _ => ⟨0, 0, false, ""⟩⟩,
          ⟨true, false, ⟨true, 7⟩, true, fun _ => ⟨0, 0, false, ""⟩⟩] = .ok edges ∧
      edges.map delivered =
        (Elastic.ripe (~~~ ·) (slots [initialised, initialised]) ++
          edges.map fun e => (accepted e).map (complements 2)).take 3 :=
  chain_latency 2 (by decide) _ ⟨rfl, by simp [Unstalled, initialised]⟩ _ (by simp) (by simp)

end PipelineBench.Chain
