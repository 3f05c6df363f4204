import PipelineBench.Uvm.Driver
import PipelineBench.Uvm.Sequence
import PipelineBench.Uvm.TestBench
import PipelineBench.Verify.Oracle
import PipelineBench.Verify.Refinement

/-!
# The end-to-end verdict

Sequences, driver, module, monitor and score boards together. The boards accept
whatever the module does, so the verdict rests on what the sequences cover, and
`all_control_pairs_t` covers it alone.
-/

namespace PipelineBench.EndToEnd

open Run SingleCycle Monitor Oracle Transaction ScoreBoard Sequence

/-! ## From sequence numbers to observed controls -/

/-- The input control bits of driven signals. -/
def inputControls (inp : MutInput) : InputControls := (sampleStimuli inp).controls

theorem inputControls_dispatch (item : Request) (vif : MutInput) :
    inputControls (Driver.itemDispatch item vif) = Driver.controlsOf item := by
  cases item <;> rfl

theorem inputControls_driven (items : List Request) :
    (Driver.driven items).map inputControls = items.map Driver.controlsOf := by
  rw [Driver.driven, List.map_map]
  refine List.map_congr_left fun item _ => ?_
  exact inputControls_dispatch item .powerUp

/-- The sequence number of a pair of five-bit codes. -/
def pairNumber (a b : Fin (2 ^ nInputControlBits)) : ℕ := 2 ^ bit_count * a.val + b.val

theorem pairNumber_lt (a b : Fin (2 ^ nInputControlBits)) :
    pairNumber a b < sequence_count := by
  have ha : a.val < 32 := a.isLt
  have hb : b.val < 32 := b.isLt
  show 32 * a.val + b.val < 1024
  omega

/-- The first cycle of a sequence number drives its high five bits. -/
theorem controlBit_first (a b : Fin (2 ^ nInputControlBits)) {k : ℕ} (hk : k < bit_count) :
    controlBit (pairBits (BitVec.ofNat 32 (pairNumber a b)) 0) k = a.val.testBit k := by
  have hk' : k < 5 := hk
  have hb : b.val < 2 ^ bit_count := b.isLt
  have hshift : (sequence_cycles - 0 - 1) * bit_count + k = 5 + k := by
    simp [sequence_cycles, bit_count]
  rw [controlBit_eq, pairBits_getLsbD _ _ _ hk, pairNumber, Nat.testBit_two_pow_mul_add _ hb,
    hshift, decide_eq_true (by omega : 5 + k < 32), if_neg (by simp [bit_count])]
  simp [bit_count]

/-- The second cycle drives the low five. -/
theorem controlBit_second (a b : Fin (2 ^ nInputControlBits)) {k : ℕ} (hk : k < bit_count) :
    controlBit (pairBits (BitVec.ofNat 32 (pairNumber a b)) 1) k = b.val.testBit k := by
  have hk' : k < 5 := hk
  have hb : b.val < 2 ^ bit_count := b.isLt
  have hshift : (sequence_cycles - 1 - 1) * bit_count + k = k := by
    simp [sequence_cycles]
  rw [controlBit_eq, pairBits_getLsbD _ _ _ hk, pairNumber, Nat.testBit_two_pow_mul_add _ hb,
    hshift, decide_eq_true (by omega : k < 32), if_pos hk, Bool.true_and]

theorem pairRequest_controls (beyond : ℕ → Char) (a b : Fin (2 ^ nInputControlBits)) :
    Driver.controlsOf (.valueFixed (pairRequest beyond (BitVec.ofNat 32 (pairNumber a b)) 0)) =
        ScoreBoard.controlsOf a ∧
      Driver.controlsOf (.valueFixed (pairRequest beyond (BitVec.ofNat 32 (pairNumber a b)) 1)) =
        ScoreBoard.controlsOf b := by
  simp only [Driver.controlsOf, pairRequest, Request.ValueFixed.setControl,
    ScoreBoard.controlsOf]
  constructor
  · rw [controlBit_first a b (by decide), controlBit_first a b (by decide),
      controlBit_first a b (by decide), controlBit_first a b (by decide),
      controlBit_first a b (by decide)]
  · rw [controlBit_second a b (by decide), controlBit_second a b (by decide),
      controlBit_second a b (by decide), controlBit_second a b (by decide),
      controlBit_second a b (by decide)]

/-- One iteration drives every ordered pair of control combinations. -/
theorem pair_covered (beyond : ℕ → Char) {count : ℕ} (hcount : 1 ≤ count) (a b : InputControls) :
    [a, b] <:+:
      ((List.range count).flatMap fun _ => pairItems beyond).map Driver.controlsOf := by
  have hpair := (pair_adjacent beyond hcount
    (pairNumber_lt (controlIndex a) (controlIndex b))).map Driver.controlsOf
  obtain ⟨ha, hb⟩ := pairRequest_controls beyond (controlIndex a) (controlIndex b)
  rw [List.map_cons, List.map_cons, List.map_nil, ha, hb, controlsOf_controlIndex,
    controlsOf_controlIndex] at hpair
  exact hpair

theorem infix_dropLast {α : Type*} {l m : List α} {x : α} (h : l ++ [x] <:+: m) :
    l <:+: m.dropLast := by
  obtain ⟨pre, post, rfl⟩ := h
  have hsplit : pre ++ (l ++ [x]) ++ post = (pre ++ l) ++ (x :: post) := by simp
  rw [hsplit, List.dropLast_append_of_ne_nil (List.cons_ne_nil x post)]
  exact ⟨pre, (x :: post).dropLast, rfl⟩

/-! ## From driven inputs to the verdict -/

/-- Every edge of a history of the initialised module meets its specification. -/
theorem history_spec {is : List MutInput} {es : List (Edge MutOutput MutInput)}
    (h : history edge initialised is = .ok es) :
    ∀ e ∈ es, Unstalled e.before ∧ EdgeSpec e.before e.input e.after := by
  obtain ⟨es', hes', -, hall⟩ :=
    edge_total.forall_edges (Q := fun e => Unstalled e.before ∧ EdgeSpec e.before e.input e.after)
      (fun _ _ _ hs he => ⟨hs, edgeSpec_of_edge hs he⟩) is initialised_unstalled
  rw [h, Except.ok.injEq] at hes'
  exact hes' ▸ hall

/-- An input that advances a valid datum shows one at the next edge. -/
theorem valid_of_controls {e : Edge MutOutput MutInput} (hun : Unstalled e.before)
    (h : EdgeSpec e.before e.input e.after)
    (hctl : inputControls e.input = ⟨true, true, false, false, true⟩) :
    e.after.ctl.is_valid = true := by
  have hfields : e.input.ctl.reset = true ∧ e.input.ctl.is_advance = true ∧
      e.input.ctl.is_flush = false ∧ e.input.ctl.is_valid = true := by
    have hreset := congrArg InputControls.reset hctl
    have hadv := congrArg InputControls.is_advance hctl
    have hflush := congrArg InputControls.is_flush hctl
    have hvalid := congrArg InputControls.is_valid hctl
    exact ⟨hreset, hadv, hflush, hvalid⟩
  obtain ⟨hreset, hadv, hflush, hvalid⟩ := hfields
  have hv := h.is_valid
  rw [if_neg (not_discards_iff.mpr ⟨hreset, hflush⟩), computeAdvance_of_unstalled hun, hadv,
    Bool.or_true, if_pos rfl] at hv
  exact hv.trans hvalid

/-- The controls observed are those consumed. -/
theorem controls_of_history {is : List MutInput} {es : List (Edge MutOutput MutInput)}
    (h : history edge initialised is = .ok es) :
    (es.dropLast.map edgeSignals).map (·.stimuli.controls) = is.dropLast.map inputControls := by
  rw [← history_inputs h, List.map_map, ← List.map_dropLast, List.map_map]
  rfl

/-- Full coverage includes a valid datum that is advanced, so one value is checked. -/
theorem valid_of_cover {is : List MutInput} {es : List (Edge MutOutput MutInput)}
    (h : history edge initialised is = .ok es)
    (hcover : ∀ a b : InputControls, [a, b] <:+: is.dropLast.map inputControls) :
    ∃ x ∈ es.dropLast.map edgeSignals, x.state_1.ctl.is_valid = true := by
  have hpair := hcover ⟨true, true, false, false, true⟩ ⟨true, true, true, true, true⟩
  rw [← controls_of_history h, List.map_map] at hpair
  have hmem := hpair.subset (List.mem_cons_self ..)
  rcases List.mem_map.mp hmem with ⟨e, he, hctl⟩
  rcases history_spec h e (List.mem_of_mem_dropLast he) with ⟨hun, hspec⟩
  exact ⟨edgeSignals e, List.mem_map_of_mem he, valid_of_controls hun hspec hctl⟩

/-- The verdict on a history all of whose edges but the last were reported. -/
theorem verdict_of_history {is : List MutInput} {es : List (Edge MutOutput MutInput)}
    (hhist : history edge initialised is = .ok es) (hlen : is.length < 2 ^ 32)
    (hcover : ∀ a b : InputControls, [a, b] <:+: is.dropLast.map inputControls) :
    ∃ bench, TestBench.writes .built (es.dropLast.map edgeTransaction) = .ok bench ∧
      bench.isPass = true := by
  have hgood : ∀ t ∈ es.dropLast.map edgeTransaction, t.good = true := by
    intro t ht
    rcases List.mem_map.mp ht with ⟨e, -, rfl⟩
    rfl
  have hsignals : (es.dropLast.map edgeTransaction).map (·.m_value) =
      es.dropLast.map edgeSignals := by
    rw [List.map_map]
    rfl
  have hspec : ∀ x ∈ es.dropLast.map edgeSignals,
      ∃ e, EdgeSpec e.before e.input e.after ∧ edgeSignals e = x := by
    intro x hx
    rcases List.mem_map.mp hx with ⟨e, he, rfl⟩
    exact ⟨e, (history_spec hhist e (List.mem_of_mem_dropLast he)).2, rfl⟩
  rcases TestBench.writes_built _ hgood with ⟨reports, hwrites⟩
  rw [hsignals] at hwrites
  refine ⟨_, hwrites, ?_⟩
  rw [TestBench.isPass_ofSignals reports, controls_of_history hhist]
  · have hvalid := valid_of_cover hhist hcover
    refine ⟨⟨?_, ?_⟩, ⟨hvalid, ?_⟩, hcover⟩
    · rcases hvalid with ⟨x, hx, -⟩
      exact List.ne_nil_of_mem hx
    · intro x hx
      rcases hspec x hx with ⟨e, he, rfl⟩
      exact controlsAgree_of_edge he
    · intro x hx hshown
      rcases hspec x hx with ⟨e, he, rfl⟩
      exact valueAgrees_of_edge he hshown
  · have hes : es.length = is.length := history_length hhist
    rw [List.length_map, List.length_dropLast]
    omega

/-- The inputs of a run: idle clocks, then the items as the driver writes them. -/
def inputs (idle : ℕ) (items : List Request) : List MutInput :=
  List.replicate idle .powerUp ++ Driver.dispatchAll .powerUp items

/-- The items of a pair sequence go out as they were written. -/
theorem allControlPairs_sent (beyond : ℕ → Char) (g : Request.Generator)
    {sequences : List TestSequence} {s : TestSequence} (hs : s ∈ sequences)
    (hkind : s.kind = .allControlPairs) (hidle : ∀ s ∈ sequences, s.m_spinning = false)
    {items : List Request} (hitems : startAll beyond g sequences = .ok items) :
    allControlPairsBody beyond s.m_count.toNat <:+: items := by
  have hbody : s.doBody beyond = allControlPairsBody beyond s.m_count.toNat := by
    rw [TestSequence.doBody, hkind]
  rw [← hbody]
  apply body_sent beyond g hs hidle ?_ hitems
  rw [hbody]
  exact allControlPairsBody_isFixed beyond _

/-- A run long enough consumes every item. -/
theorem driven_infix {idle : ℕ} {items : List Request} {is : List MutInput}
    {es : List (Edge MutOutput MutInput)} {b : Bench} (h : Bench.Inv (inputs idle items) is es b)
    (hlen : idle + items.length ≤ is.length) : Driver.driven items <:+: is := by
  rw [inputs, Driver.dispatchAll_eq] at h
  have hpre := Bench.driven_prefix h (by
    rw [List.length_append, List.length_replicate, Driver.driven, List.length_map]
    exact hlen)
  exact (List.suffix_append _ _).isInfix.trans hpre.isInfix

/-- Once the items of a pair sequence have been consumed every pair has been
observed. The last clock is not reported yet: it is one of the closing holds or
comes after them. -/
theorem covers_of_driven (beyond : ℕ → Char) {count : ℕ} (hcount : 1 ≤ count)
    {items : List Request} (hsent : allControlPairsBody beyond count <:+: items)
    {is : List MutInput} (hdriven : Driver.driven items <:+: is) (a b : InputControls) :
    [a, b] <:+: is.dropLast.map inputControls := by
  have hall : (allControlPairsBody beyond count).map Driver.controlsOf <:+:
      is.map inputControls := by
    apply (hsent.map _).trans
    rw [← inputControls_driven]
    exact hdriven.map _
  rw [allControlPairsBody, List.map_append, List.map_cons, List.map_cons, List.map_nil,
    List.append_cons] at hall
  rw [List.map_dropLast]
  apply (pair_covered beyond hcount a b).trans
  exact (List.prefix_append _ _).isInfix.trans (infix_dropLast hall)

/-- **End-to-end verdict.** Any list of sequences among which is one
`all_control_pairs_t`, with any random numbers, any number of idle clocks before
the first item and any later end, passes the test; and the transactions judged
are those the monitor transmits under every schedule of the kernel. -/
theorem end_to_end (beyond : ℕ → Char) (g : Request.Generator)
    (signals : SingleCycleSignals) (sequences : List TestSequence)
    (hidle : ∀ s ∈ sequences, s.m_spinning = false)
    (hcount : ∀ s ∈ sequences, 1 ≤ s.m_count.toNat)
    (hpairs : ∃ s ∈ sequences, s.kind = .allControlPairs) :
    ∃ items, startAll beyond g sequences = .ok items ∧
      ∀ idle n, idle + items.length ≤ n → n < 2 ^ 32 →
        ∃ b bench,
          (Bench.start (inputs idle items) signals).run n = .ok b ∧
          TestBench.writes .built b.transmitted = .ok bench ∧
          bench.isPass = true ∧
          ∃ s, DeltaCycle.Kernel.Leads Simulation.kernel
              (Simulation.powerUp (inputs idle items) signals) s ∧
            s.transmitted = b.transmitted := by
  rcases startAll_ok beyond g hidle with ⟨items, hitems⟩
  refine ⟨items, hitems, ?_⟩
  intro idle n hn hlt
  rcases hpairs with ⟨s, hs, hkind⟩
  rcases Bench.run_inv (inputs idle items) signals n with ⟨is, es, b, hrun, hlen, hinv⟩
  have hcover : ∀ a b : InputControls, [a, b] <:+: is.dropLast.map inputControls := by
    have hsent := allControlPairs_sent beyond g hs hkind hidle hitems
    have hdriven := driven_infix hinv (hlen ▸ hn)
    exact covers_of_driven beyond (hcount s hs) hsent hdriven
  obtain ⟨bench, hwrites, hpass⟩ := verdict_of_history hinv.history (hlen ▸ hlt) hcover
  refine ⟨b, bench, hrun, ?_, hpass, ?_⟩
  · rw [hinv.watching.transmitted]
    exact hwrites
  · rcases Refinement.kernel_refines_bench (inputs idle items) signals n with
      ⟨b', s', hrun', hleads, hmatch⟩
    rw [hrun, Except.ok.injEq] at hrun'
    subst hrun'
    exact ⟨s', hleads, hmatch.transmitted⟩

/-- One iteration of the pair sequence alone, with one idle clock before it. -/
theorem end_to_end_pairs :
    ∃ items b bench,
      startAll (fun _ => '?') ⟨fun _ => 0, 0⟩ [.make .allControlPairs 1] = .ok items ∧
      (Bench.start (inputs 1 items) .ugly).run 2051 = .ok b ∧
      TestBench.writes .built b.transmitted = .ok bench ∧ bench.isPass = true := by
  obtain ⟨items, hitems, hpass⟩ :=
    end_to_end (fun _ => '?') ⟨fun _ => 0, 0⟩ .ugly [.make .allControlPairs 1]
      (by simp [TestSequence.make]) (by simp [TestSequence.make])
      ⟨_, List.mem_singleton_self _, rfl⟩
  have hbody : TestSequence.doBody (fun _ => '?') (.make .allControlPairs 1) =
    allControlPairsBody (fun _ => '?') 1 := rfl
  have hlen : items.length = 2050 := by
    rw [startAll, body_of_idle _ (by rfl), hbody] at hitems
    simp only [sendItems_of_isFixed _ (allControlPairsBody_isFixed _ 1), startAll, Except.map,
      Except.ok.injEq, List.append_nil] at hitems
    rw [← hitems, allControlPairsBody, List.length_append, List.range_one, List.flatMap_singleton,
      length_pairItems]
    rfl
  obtain ⟨b, bench, hrun, hwrites, hok, -⟩ := hpass 1 2051 (by omega) (by decide)
  exact ⟨items, b, bench, hitems, hrun, hwrites, hok⟩

end PipelineBench.EndToEnd
