import PipelineBench.Uvm.Test
import PipelineBench.Verify.Independence

/-!
# Sequences do not interfere

A test starts one sequence after the other on one driver, one module and one
random number generator. Every sequence begins with a reset and ends with the
stage empty, and draws from the generator where the one before it stopped. What
it does to the module is therefore what it does when it is run by itself.
-/

namespace PipelineBench.Isolation

open Run SingleCycle Conservation Independence Request Sequence Driver UvmTest

/-! ## Drawing -/

/-- The number of items that draw when they are sent. -/
def randomCount (items : List Request) : ℕ := items.countP fun item => !decide item.IsFixed

/-- Three draws for every random item, none for the others. -/
theorem sendItems_drawn (g : Generator) (items : List Request) :
    (sendItems g items).2 = ⟨g.stream, g.drawn + 3 * randomCount items⟩ := by
  induction items generalizing g with
  | nil => rfl
  | cons item items ih =>
      rw [sendItems, ih, randomCount, randomCount, List.countP_cons]
      cases item with
      | randomWeighted request =>
          show Generator.mk g.stream (g.drawn + 1 + 1 + 1 + 3 * _) =
            ⟨g.stream, g.drawn + 3 * (_ + 1)⟩
          congr 1
          omega
      | _ => rfl

/-! ## How a sequence begins and ends -/

/-- An input after which the stage is empty. -/
def Clears (x : MutInput) : Prop :=
  Discards x ∨ x.ctl.is_advance = true ∧ x.ctl.is_valid = false

theorem clears_powerUp : Clears .powerUp := Or.inl (Or.inl rfl)

theorem clears_reset : Clears (itemDispatch .reset .powerUp) := Or.inl (Or.inl rfl)

theorem clears_hold : Clears (itemDispatch .hold .powerUp) := Or.inr ⟨rfl, rfl⟩

/-- Every sequence ends on a hold, except that repeated resets end on a reset. -/
theorem doBody_last (beyond : ℕ → Char) (s : TestSequence) :
    ∀ last ∈ (s.doBody beyond).getLast?, last = .hold ∨ last = .reset := by
  intro last hlast
  obtain ⟨kind, count, spinning⟩ := s
  cases kind with
  | repeatT => exact Or.inr (List.eq_of_mem_replicate (List.mem_of_getLast? hlast))
  | errorWAdvanceValid => exact Or.inl (Option.some.inj hlast).symm
  | allControlPairs =>
      rw [TestSequence.doBody, allControlPairsBody, List.getLast?_append] at hlast
      exact Or.inl (Option.some.inj hlast).symm
  | randomWeighted =>
      rw [TestSequence.doBody, randomWeightedBody, List.getLast?_append] at hlast
      exact Or.inl (Option.some.inj hlast).symm
  | randomLoop =>
      rw [TestSequence.doBody, randomLoopBody, List.getLast?_append] at hlast
      exact Or.inl (Option.some.inj hlast).symm
  | flushWAdvanceNeverAdvances =>
      rw [TestSequence.doBody, flushWAdvanceNeverAdvancesBody, List.getLast?_append] at hlast
      exact Or.inl (Option.some.inj hlast).symm
  | resetAdvanceWithOutValid =>
      rw [TestSequence.doBody, resetAdvanceWithOutValidBody, List.getLast?_append] at hlast
      exact Or.inl (Option.some.inj hlast).symm

theorem pairItems_first (beyond : ℕ → Char) :
    ∃ rest, pairItems beyond = .valueFixed (pairRequest beyond (BitVec.ofNat 32 0) 0) :: rest := by
  have hcount : sequence_count = 1023 + 1 := rfl
  rw [pairItems, hcount, List.range_succ_eq_map, List.flatMap_cons]
  exact ⟨_, rfl⟩

theorem pairRequest_first (beyond : ℕ → Char) :
    (controlsOf (.valueFixed (pairRequest beyond (BitVec.ofNat 32 0) 0))).reset = false := by
  show controlBit (pairBits (BitVec.ofNat 32 0) 0) 4 = false
  decide

/-- Every sequence that counts begins with a reset. -/
theorem doBody_first (beyond : ℕ → Char) {s : TestSequence} (hcount : 1 ≤ s.m_count.toNat) :
    ∃ first rest, s.doBody beyond = first :: rest ∧ first.IsFixed ∧
      (controlsOf first).reset = false := by
  obtain ⟨kind, count, spinning⟩ := s
  obtain ⟨n, hn⟩ : ∃ n, count.toNat = n + 1 := ⟨count.toNat - 1, by simp only at hcount; omega⟩
  cases kind with
  | repeatT =>
      refine ⟨.reset, List.replicate n .reset, ?_, trivial, rfl⟩
      show List.replicate count.toNat Request.reset = _
      rw [hn, List.replicate_succ]
  | allControlPairs =>
      obtain ⟨rest, hrest⟩ := pairItems_first beyond
      refine ⟨.valueFixed (pairRequest beyond (BitVec.ofNat 32 0) 0),
        (rest ++ (List.range n).flatMap fun _ => pairItems beyond) ++ [.hold, .hold],
        ?_, trivial, pairRequest_first beyond⟩
      show allControlPairsBody beyond count.toNat = _
      rw [hn, allControlPairsBody, List.range_succ_eq_map, List.flatMap_cons, List.flatMap_map,
        hrest]
      rfl
  | _ => exact ⟨_, _, rfl, trivial, rfl⟩

theorem sequences_last (beyond : ℕ → Char) (ss : List TestSequence) :
    ∀ last ∈ (ss.flatMap (·.doBody beyond)).getLast?, last = .hold ∨ last = .reset := by
  induction ss with
  | nil => simp
  | cons s ss ih =>
      intro last hlast
      rw [List.flatMap_cons, List.getLast?_append] at hlast
      -- the last item of the last sequence that sends any
      cases hrest : (ss.flatMap (·.doBody beyond)).getLast? with
      | none =>
          rw [hrest] at hlast
          exact doBody_last beyond s last hlast
      | some item =>
          rw [hrest] at hlast
          exact ih last (hrest.trans hlast)

/-- What is sent last empties the stage. -/
theorem sent_clears (g : Generator) {items : List Request}
    (h : ∀ last ∈ items.getLast?, last = .hold ∨ last = .reset) :
    ∀ x ∈ (driven (sendItems g items).1).getLast?, Clears x := by
  rcases List.eq_nil_or_concat' items with rfl | ⟨init, last, rfl⟩
  · intro x hx
    cases hx
  · intro x hx
    have hlast := h last (by rw [List.getLast?_concat]; rfl)
    have hfixed : last.IsFixed := by rcases hlast with rfl | rfl <;> trivial
    rw [sendItems_append, sendItems_of_isFixed _ (List.forall_mem_singleton.mpr hfixed), driven,
      List.map_append, List.map_singleton, List.getLast?_concat] at hx
    obtain rfl := Option.some.inj hx
    rcases hlast with rfl | rfl
    · exact clears_hold
    · exact clears_reset

/-! ## Between two sequences -/

/-- Nothing is held and nothing stalls. -/
structure AtRest (out : MutOutput) : Prop where
  unstalled : Unstalled out
  held : held out = none

theorem atRest_initialised : AtRest initialised := ⟨rfl, rfl⟩

theorem held_of_clears {out out' : MutOutput} {inp : MutInput} (hun : Unstalled out)
    (h : EdgeSpec out inp out') (hclears : Clears inp) : held out' = none := by
  rw [held_after hun h]
  rcases hclears with hdis | ⟨hadv, hvalid⟩
  · rw [decide_eq_true hdis, Elastic.stage_kill]
  · have hoffered : offered inp = none := by
      rw [offered, hvalid]
      rfl
    rw [Elastic.stage, hadv, Bool.or_true, if_pos rfl, hoffered]
    exact ite_self _

/-- A run that ends on a clearing input ends at rest, and so does an empty one. -/
theorem atRest_run {out : MutOutput} {is : List MutInput} {es : List (Edge MutOutput MutInput)}
    (hrun : history edge out is = .ok es) (h : AtRest out)
    (hlast : ∀ x ∈ is.getLast?, Clears x) : AtRest (final out es) := by
  rcases List.eq_nil_or_concat' es with rfl | ⟨init, e, rfl⟩
  · exact h
  · obtain ⟨hinit, he⟩ := history_split hrun
    obtain ⟨es', hes', hun⟩ := edge_total.history_ok (init.map Edge.input) h.unstalled
    rw [hinit, Except.ok.injEq] at hes'
    subst hes'
    obtain ⟨out', fs, hedge, -, heq⟩ := history_cons_ok he
    have hspec := edgeSpec_of_edge hun hedge
    have hclears : Clears e.input := by
      apply hlast
      rw [← history_inputs hrun, List.map_append, List.map_singleton, List.getLast?_concat]
      rfl
    rw [final_append]
    rw [List.cons.injEq] at heq
    rw [final_cons, final_nil, heq.1]
    exact ⟨hspec.is_stall, held_of_clears hun hspec hclears⟩

/-- What a sequence accepts it gives up again, complemented and in order. -/
theorem conserved_of_rest {out : MutOutput} {is : List MutInput}
    {es : List (Edge MutOutput MutInput)} (hrun : history edge out is = .ok es)
    (h : AtRest out) (hend : held (final out es) = none) :
    (es.filterMap accepted).map Datum.complement = es.filterMap left := by
  obtain ⟨es', hes', -, hall⟩ :=
    edge_total.forall_edges (Q := Elastic.Conserves (fun out => (held out).toList)
        (fun e => (accepted e).map Datum.complement) left)
      (fun _ _ _ hs he => edge_conserves hs (edgeSpec_of_edge hs he)) is h.unstalled
  rw [hrun, Except.ok.injEq] at hes'
  subst hes'
  have hflow := Elastic.conserves_run hrun hall
  rw [h.held, hend] at hflow
  rw [List.map_filterMap]
  simpa using hflow

/-! ## Beside the sequence run by itself -/

/-- Edges that accept the same datum and show the same afterwards, the captured
advance included. -/
structure Twin (e f : Edge MutOutput MutInput) : Prop where
  indistinct : Indistinct e.after f.after
  accepted : accepted e = accepted f
  captured : e.after.debug.is_advance = f.after.debug.is_advance

/-- Runs whose first edges leave alike what they found different: only the advance
they have captured still tells what that was. Every later pair of edges is twins. -/
def TwinsAfterReset (es fs : List (Edge MutOutput MutInput)) : Prop :=
  ∃ e f es' fs', es = e :: es' ∧ fs = f :: fs' ∧ Indistinct e.after f.after ∧
    accepted e = accepted f ∧ List.Forall₂ Twin es' fs'

theorem twin_sync : Sync edge Alike (· = ·) (fun _ _ => True) Twin := by
  rintro a b inp _ h rfl
  obtain ⟨a', hedge, ha⟩ := edge_spec inp h.unstalled
  obtain ⟨b', hedge', hb⟩ := edge_spec inp h.unstalled'
  refine Or.inr ⟨a', b', hedge, hedge', ?_⟩
  intro _
  obtain ⟨hnext, hcaptured⟩ := h.step ha hb
  have haccepted : Conservation.accepted ⟨a, inp, a'⟩ = Conservation.accepted ⟨b, inp, b'⟩ := by
    rw [accepted_eq_enter h.unstalled, accepted_eq_enter h.unstalled', h.held]
  exact ⟨hnext, hnext.indistinct, haccepted, hcaptured⟩

theorem accepted_of_reset {e : Edge MutOutput MutInput} (h : e.input.ctl.reset = false) :
    Conservation.accepted e = none := by
  rw [Conservation.accepted, if_neg]
  rintro ⟨hreset, -⟩
  rw [h] at hreset
  cases hreset

/-- Inputs that begin with a reset do to any state what they do to any other. -/
theorem twins_of_reset (a b : MutOutput) {x : MutInput} (xs : List MutInput)
    (hreset : x.ctl.reset = false) :
    ∃ es fs, history edge a (x :: xs) = .ok es ∧ history edge b (x :: xs) = .ok fs ∧
      TwinsAfterReset es fs := by
  obtain ⟨a', hedge, ha⟩ := edge_discards a (Or.inl hreset)
  obtain ⟨b', hedge', hb⟩ := edge_discards b (Or.inl hreset)
  have hlike := alike_of_reset hreset ha hb
  obtain ⟨es, hes, -⟩ := edge_total.history_ok xs hlike.unstalled
  obtain ⟨fs, hfs, -⟩ := edge_total.history_ok xs hlike.unstalled'
  have hrest := history_sync twin_sync (List.forall₂_refl xs) hlike hes hfs fun _ _ => trivial
  have haccepted : Conservation.accepted ⟨a, x, a'⟩ = Conservation.accepted ⟨b, x, b'⟩ :=
    (accepted_of_reset hreset).trans (accepted_of_reset hreset).symm
  exact ⟨_, _, history_cons hedge hes, history_cons hedge' hfs,
    _, _, _, _, rfl, rfl, hlike.indistinct, haccepted, hrest⟩

/-- The items of a sequence that counts begin with a reset when they are sent. -/
theorem sent_first (beyond : ℕ → Char) (g : Generator) {s : TestSequence}
    (hcount : 1 ≤ s.m_count.toNat) :
    ∃ x xs, driven (sendItems g (s.doBody beyond)).1 = x :: xs ∧ x.ctl.reset = false := by
  obtain ⟨first, rest, hbody, hfixed, hreset⟩ := doBody_first beyond hcount
  refine ⟨itemDispatch first .powerUp, driven (sendItems g rest).1, ?_, ?_⟩
  · rw [hbody, sendItems, randomise_of_isFixed hfixed]
    rfl
  · rw [← hreset]
    cases first <;> rfl

theorem clears_inputs (idle : ℕ) {items : List Request}
    (h : ∀ x ∈ (driven items).getLast?, Clears x) :
    ∀ x ∈ (List.replicate idle MutInput.powerUp ++ driven items).getLast?, Clears x := by
  intro x hx
  rw [List.getLast?_append] at hx
  cases hlast : (driven items).getLast? with
  | none =>
      rw [hlast] at hx
      have hidle := List.eq_of_mem_replicate (List.mem_of_getLast? hx)
      subst hidle
      exact clears_powerUp
  | some y =>
      rw [hlast] at hx
      exact h x (hlast.trans hx)

/-- The run of a sequence in the middle of a test. -/
theorem block_isolated (idle : ℕ) {a b : List Request} (c : List Request)
    (ha : ∀ x ∈ (driven a).getLast?, Clears x) (hb : ∀ x ∈ (driven b).getLast?, Clears x)
    (hfirst : ∃ x xs, driven b = x :: xs ∧ x.ctl.reset = false) :
    ∃ ea eb ec, history edge initialised (drivenInputs idle (a ++ b ++ c)) = .ok (ea ++ eb ++ ec) ∧
      ea.length = idle + a.length ∧ eb.length = b.length ∧
      held (final initialised ea) = none ∧ held (final initialised (ea ++ eb)) = none ∧
      (eb.filterMap accepted).map Datum.complement = eb.filterMap left ∧
      ∀ out, ∃ alone, history edge out (driven b) = .ok alone ∧ TwinsAfterReset eb alone := by
  obtain ⟨ea, hea, -⟩ := edge_total.history_ok (List.replicate idle .powerUp ++ driven a)
    initialised_unstalled
  have hbefore := atRest_run hea atRest_initialised (clears_inputs idle ha)
  obtain ⟨eb, heb, -⟩ := edge_total.history_ok (driven b) hbefore.unstalled
  have hafter := atRest_run heb hbefore hb
  obtain ⟨ec, hec, -⟩ := edge_total.history_ok (driven c) hafter.unstalled
  have hinputs : drivenInputs idle (a ++ b ++ c) =
      (List.replicate idle .powerUp ++ driven a) ++ driven b ++ driven c := by
    rw [drivenInputs, dispatchAll_eq, driven, List.map_append, List.map_append]
    simp only [driven, List.append_assoc]
  refine ⟨ea, eb, ec, ?_, ?_, ?_, hbefore.held, ?_, conserved_of_rest heb hbefore hafter.held, ?_⟩
  · rw [hinputs]
    exact history_append (history_append hea heb) (by rw [final_append]; exact hec)
  · rw [history_length hea, List.length_append, List.length_replicate, driven, List.length_map]
  · rw [history_length heb, driven, List.length_map]
  · rw [final_append]
    exact hafter.held
  · intro out
    obtain ⟨x, xs, hx, hreset⟩ := hfirst
    obtain ⟨es, alone, hes, halone, htwins⟩ := twins_of_reset (final initialised ea) out xs hreset
    rw [← hx, heb, Except.ok.injEq] at hes
    rw [← hx] at halone
    subst hes
    exact ⟨alone, halone, htwins⟩

/-- **Sequences do not interfere.** Whatever is started before and after it, the
items of a sequence are those it sends alone with a generator moved on by three
draws for every random item ahead of it. It finds the stage empty and leaves it
empty, everything it has accepted leaves again while it runs, and at each of its
edges the module accepts and shows what it would if the sequence were run by
itself, from any state; only the advance captured at its first edge may differ. -/
theorem sequence_isolated (beyond : ℕ → Char) (g : Generator) (pre : List TestSequence)
    (s : TestSequence) (post : List TestSequence)
    (hidle : ∀ t ∈ pre ++ s :: post, t.m_spinning = false) (hcount : 1 ≤ s.m_count.toNat)
    (idle : ℕ) :
    ∃ a b c ea eb ec,
      startAll beyond g (pre ++ s :: post) = .ok (a ++ b ++ c) ∧
      startAll beyond g pre = .ok a ∧
      startAll beyond ⟨g.stream, g.drawn + 3 * randomCount (pre.flatMap (·.doBody beyond))⟩ [s] =
        .ok b ∧
      history edge initialised (drivenInputs idle (a ++ b ++ c)) = .ok (ea ++ eb ++ ec) ∧
      ea.length = idle + a.length ∧ eb.length = b.length ∧
      held (final initialised ea) = none ∧ held (final initialised (ea ++ eb)) = none ∧
      (eb.filterMap accepted).map Datum.complement = eb.filterMap left ∧
      ∀ out, ∃ alone, history edge out (driven b) = .ok alone ∧ TwinsAfterReset eb alone := by
  have hpre : ∀ t ∈ pre, t.m_spinning = false :=
    fun t ht => hidle t (List.mem_append_left _ ht)
  have hself : ∀ t ∈ [s], t.m_spinning = false := by
    rintro t ht
    obtain rfl := List.mem_singleton.mp ht
    exact hidle t (List.mem_append_right _ (List.mem_cons_self ..))
  have hall := startAll_eq beyond g hidle
  rw [List.flatMap_append, List.flatMap_cons, ← List.append_assoc, sendItems_append,
    sendItems_append, sendItems_drawn g] at hall
  have halone := startAll_eq beyond
    ⟨g.stream, g.drawn + 3 * randomCount (pre.flatMap (·.doBody beyond))⟩ hself
  rw [List.flatMap_singleton] at halone
  obtain ⟨ea, eb, ec, hrun⟩ := block_isolated idle _ (sent_clears g (sequences_last beyond pre))
    (sent_clears _ (doBody_last beyond s)) (sent_first beyond _ hcount)
  exact ⟨_, _, _, ea, eb, ec, hall, startAll_eq beyond g hpre, halone, hrun⟩

/-- The error sequence between the two random ones, each of one item. -/
theorem sequence_isolated_error :
    ∃ a b c ea eb ec,
      startAll (fun _ => '?') ⟨fun n => BitVec.ofNat 64 n, 0⟩
        ([.make .randomWeighted 1] ++ .make .errorWAdvanceValid 1 :: [.make .randomLoop 1]) =
          .ok (a ++ b ++ c) ∧
      startAll (fun _ => '?') ⟨fun n => BitVec.ofNat 64 n, 0⟩ [.make .randomWeighted 1] = .ok a ∧
      startAll (fun _ => '?') ⟨fun n => BitVec.ofNat 64 n, 0 + 3 * randomCount
        ([TestSequence.make .randomWeighted 1].flatMap (·.doBody fun _ => '?'))⟩
          [.make .errorWAdvanceValid 1] = .ok b ∧
      history edge initialised (drivenInputs 1 (a ++ b ++ c)) = .ok (ea ++ eb ++ ec) ∧
      ea.length = 1 + a.length ∧ eb.length = b.length ∧
      held (final initialised ea) = none ∧ held (final initialised (ea ++ eb)) = none ∧
      (eb.filterMap accepted).map Datum.complement = eb.filterMap left ∧
      ∀ out, ∃ alone, history edge out (driven b) = .ok alone ∧ TwinsAfterReset eb alone :=
  sequence_isolated _ _ _ _ _ (by simp [TestSequence.make]) (by decide) 1

end PipelineBench.Isolation
