import PipelineBench.Foundation.Elastic
import PipelineBench.Model.SingleCycle

/-!
# Conservation of data in the stage

The module is an elastic stage that complements: reset and flush kill what it
holds, and `compute_advance` is the readiness of the stage. The account of a run
follows from the account of one edge.
-/

namespace PipelineBench.Conservation

open PipelineBench.Run PipelineBench.SingleCycle

structure Datum where
  value : Word
  i_binary : Word
  i_number : Word
  deriving DecidableEq, Repr

/-- What the module does to a datum it takes. -/
def Datum.complement (d : Datum) : Datum := { d with value := ~~~d.value }

/-- The datum on the input ports. -/
def presented (inp : MutInput) : Datum := ⟨inp.data.value, inp.debug.i_binary, inp.debug.i_number⟩

/-- The datum in the output registers, stale while nothing is held. -/
def registers (out : MutOutput) : Datum := ⟨out.data.value, out.debug.i_binary, out.debug.i_number⟩

/-- The three registers are written together or not at all. -/
theorem registers_after {out out' : MutOutput} {inp : MutInput} (h : EdgeSpec out inp out') :
    registers out' =
      if Advances out inp then (presented inp).complement else registers out := by
  unfold registers
  rw [h.value, h.i_binary, h.i_number]
  by_cases hadv : Advances out inp
  · simp only [if_pos hadv]
    rfl
  · simp only [if_neg hadv]

/-- The datum held. -/
def held (out : MutOutput) : Option Datum :=
  if out.ctl.is_valid then some (registers out) else none

/-- The datum accepted at an edge. -/
def accepted (e : Edge MutOutput MutInput) : Option Datum :=
  if e.input.ctl.reset = true ∧ e.input.ctl.is_flush = false ∧ e.input.ctl.is_valid = true ∧
      (settle e.input e.before).ctl.is_advance = true then
    some (presented e.input)
  else none

/-- The held datum is taken by the surroundings at this edge. -/
def Delivers (inp : MutInput) : Prop :=
  inp.ctl.reset = true ∧ inp.ctl.is_flush = false ∧ inp.ctl.is_advance = true

instance (inp : MutInput) : Decidable (Delivers inp) := by
  unfold Delivers; infer_instance

/-- The datum that leaves at an edge, delivered or discarded. -/
def left (e : Edge MutOutput MutInput) : Option Datum :=
  if e.before.ctl.is_valid = true ∧ (Delivers e.input ∨ Discards e.input) then
    some (registers e.before)
  else none

/-! ## The module is an elastic stage -/

/-- The datum offered: what is presented, if it is marked valid. -/
def offered (inp : MutInput) : Option Datum :=
  if inp.ctl.is_valid then some (presented inp) else none

theorem isNone_held (out : MutOutput) : (held out).isNone = !out.ctl.is_valid := by
  cases hv : out.ctl.is_valid <;> simp [held, hv]

/-- `compute_advance` is the readiness of the stage. -/
theorem advance_eq_ready (inp : MutInput) {out : MutOutput} (h : Unstalled out) :
    computeAdvance inp out = ((held out).isNone || inp.ctl.is_advance) := by
  rw [isNone_held, computeAdvance_of_unstalled h]

theorem held_after {out out' : MutOutput} {inp : MutInput} (hun : Unstalled out)
    (h : EdgeSpec out inp out') :
    held out' = Elastic.stage (decide (Discards inp)) inp.ctl.is_advance Datum.complement
      (offered inp) (held out) := by
  have hadv := advance_eq_ready inp hun
  have hvalid := h.is_valid
  by_cases hdis : Discards inp
  · rw [if_pos hdis] at hvalid
    simp [held, hvalid, hdis]
  · obtain ⟨hr, hf⟩ := not_discards_iff.mp hdis
    rw [if_neg hdis] at hvalid
    rw [Elastic.stage, ← hadv, decide_eq_false hdis]
    have hregs := registers_after h
    cases ha : computeAdvance inp out with
    | true =>
        have htake : Advances out inp := ⟨hr, hf, ha⟩
        rw [if_pos htake] at hregs
        rw [ha, if_pos rfl] at hvalid
        cases hv : inp.ctl.is_valid <;> simp [held, offered, hvalid, hv, hregs]
    | false =>
        have hkeep : ¬ Advances out inp := fun h => absurd h.2.2 (by simp [ha])
        rw [if_neg hkeep] at hregs
        rw [ha] at hvalid
        simp [held, hvalid, hregs]

theorem accepted_eq_enter {e : Edge MutOutput MutInput} (hun : Unstalled e.before) :
    accepted e = Elastic.enter (decide (Discards e.input)) e.input.ctl.is_advance
      (offered e.input) (held e.before) := by
  have hadv := advance_eq_ready e.input hun
  by_cases hdis : Discards e.input
  · have hno : ¬ (e.input.ctl.reset = true ∧ e.input.ctl.is_flush = false) :=
      fun h => not_discards_iff.mpr h hdis
    rw [accepted, if_neg fun h => hno ⟨h.1, h.2.1⟩]
    simp [Elastic.enter, hdis]
  · obtain ⟨hr, hf⟩ := not_discards_iff.mp hdis
    rw [Elastic.enter, ← hadv, decide_eq_false hdis]
    cases hv : e.input.ctl.is_valid <;> cases ha : computeAdvance e.input e.before <;>
      simp [accepted, settle, offered, hr, hf, hv, ha]

theorem left_eq_leave (e : Edge MutOutput MutInput) :
    left e = Elastic.leave (decide (Discards e.input)) e.input.ctl.is_advance
      (held e.before) := by
  by_cases hdis : Discards e.input
  · cases hv : e.before.ctl.is_valid <;> simp [left, Elastic.leave, held, hdis, hv]
  · obtain ⟨hr, hf⟩ := not_discards_iff.mp hdis
    cases hv : e.before.ctl.is_valid <;> cases ha : e.input.ctl.is_advance <;>
      simp [left, Elastic.leave, held, Delivers, hdis, hr, hf, hv, ha]

/-- One edge accounts for every datum. -/
theorem edge_conserves {e : Edge MutOutput MutInput} (hun : Unstalled e.before)
    (h : EdgeSpec e.before e.input e.after) :
    Elastic.Conserves (fun out => (held out).toList)
      (fun e => (accepted e).map Datum.complement) left e := by
  rw [Elastic.Conserves, held_after hun h, accepted_eq_enter hun, left_eq_leave]
  exact Elastic.stage_conserves ..

/-- **Conservation of data.** After every edge of every run from a state that
neither holds a datum nor stalls, the data accepted so far, complemented, are
the data that have left so far followed by the datum held. -/
theorem data_conserved (out : MutOutput) (hvalid : out.ctl.is_valid = false)
    (hstall : out.ctl.is_stall = false) (stream : List MutInput) :
    ∃ edges, history edge out stream = .ok edges ∧
      ∀ pre post, edges = pre ++ post →
        (pre.filterMap accepted).map Datum.complement =
          pre.filterMap left ++ (held (final out pre)).toList := by
  obtain ⟨edges, hrun, -, hall⟩ :=
    edge_total.forall_edges (Q := Elastic.Conserves (fun out => (held out).toList)
        (fun e => (accepted e).map Datum.complement) left)
      (fun _ _ _ hs he => edge_conserves hs (edgeSpec_of_edge hs he)) stream hstall
  refine ⟨edges, hrun, ?_⟩
  rintro pre post rfl
  obtain ⟨hpre, -⟩ := history_split hrun
  have hsum := Elastic.conserves_run hpre fun e he => hall e (List.mem_append_left _ he)
  have hempty : held out = none := by simp [held, hvalid]
  rw [hempty, Option.toList_none, List.nil_append] at hsum
  rw [List.map_filterMap]
  exact hsum

/-- A second datum is taken on the edge that delivers the first. -/
theorem data_conserved_two :
    ∃ edges, history edge initialised
        [⟨⟨true, false, false, true⟩, ⟨5⟩, ⟨1, 2, false, ""⟩⟩,
          ⟨⟨true, true, false, true⟩, ⟨6⟩, ⟨3, 4, false, ""⟩⟩] = .ok edges ∧
      ∀ pre post, edges = pre ++ post →
        (pre.filterMap accepted).map Datum.complement =
          pre.filterMap left ++ (held (final initialised pre)).toList :=
  data_conserved initialised rfl rfl _

end PipelineBench.Conservation
