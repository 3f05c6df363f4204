import PipelineBench.Verify.OutputFaults
import PipelineBench.Verify.RandomWeights

/-!
# Which tests see a faulty data output

A fault shows on a datum that a test makes the module hold. Tests without random
items make it hold three values only, and tests with one can make it hold any.
-/

namespace PipelineBench.OutputFaults

open SingleCycle Transaction UvmTest Sequence Program Conservation Request
open AnyModule (edgeAt edgeAt_spec)

/-- Where a fault does not show, the test ends as it would without it. -/
theorem scMain_of_transparent (fault : Fault) {beyond : ℕ → Char} {g : Generator}
    (signals : SingleCycleSignals) {sequences : List TestSequence} {items : List Request}
    (hitems : startAll beyond g sequences = .ok items) {idle clocks : ℕ}
    (hlt : clocks < 2 ^ 32) (hclear : Transparent fault (drivenInputs idle items) clocks) :
    AnyModule.scMain fault.uvmModule beyond g signals initialised sequences idle clocks =
      UvmTest.scMain beyond g signals sequences idle clocks := by
  obtain ⟨hsuccess, hfail⟩ := uvm_codes fault signals hitems idle hlt
  obtain ⟨hsuccess', hfail'⟩ := scMain_iff beyond g signals hitems idle hlt
  by_cases hcover : Covers (drivenInputs idle items) clocks
  · rw [hsuccess.mpr ⟨hcover, hclear⟩, hsuccess'.mpr hcover]
  · rw [hfail.mpr fun h => hcover h.1, hfail'.mpr hcover]

/-! ## Tests without random items -/

/-- The sequences that draw nothing. -/
def DrawsNothing (s : TestSequence) : Prop := s.kind ≠ .randomWeighted ∧ s.kind ≠ .randomLoop

/-- The values that such sequences make the module hold: the pairs leave the
binary at its default, and the directed sequences set it to one of two. -/
def heldValues : List Word := [0, 0xE1000000, 0xE2000000]

/-- What an input accepted by the module would make it hold. -/
def Familiar (inp : MutInput) : Prop :=
  inp.ctl.is_valid = true → ~~~inp.data.value ∈ heldValues

instance (inp : MutInput) : Decidable (Familiar inp) := by
  unfold Familiar; infer_instance

theorem familiar_directed : ∀ item ∈ directedItems,
    item.IsFixed ∧ Familiar (Driver.itemDispatch item .powerUp) := by
  decide

theorem items_of_drawsNothing (beyond : ℕ → Char) {s : TestSequence} (h : DrawsNothing s) :
    ∀ item ∈ s.doBody beyond,
      item.IsFixed ∧ Familiar (Driver.itemDispatch item .powerUp) := by
  by_cases hpairs : s.kind = .allControlPairs
  · intro item hitem
    rw [TestSequence.doBody, hpairs] at hitem
    rcases List.mem_append.mp hitem with hpair | hhold
    · obtain ⟨_, -, hmem⟩ := List.mem_flatMap.mp hpair
      obtain ⟨sequence, -, hseq⟩ := List.mem_flatMap.mp hmem
      obtain ⟨cycle, -, rfl⟩ := List.mem_map.mp hseq
      refine ⟨trivial, fun _ => ?_⟩
      -- a pair request sets its prefix and its controls
      rw [Driver.itemDispatch_data]
      exact List.mem_cons_self ..
    · simp only [List.mem_cons, List.not_mem_nil, or_false, or_self] at hhold
      rw [hhold]
      exact ⟨trivial, by decide⟩
  · intro item hitem
    exact familiar_directed item (mem_directedItems beyond ⟨hpairs, h⟩ item hitem)

/-- What is accepted in such a test makes the module hold one of the values. -/
theorem held_of_familiar {idle : ℕ} {items : List Request}
    (h : ∀ item ∈ items, Familiar (Driver.itemDispatch item .powerUp)) {k : ℕ} {d : Datum}
    (hd : accepted (edgeAt (drivenInputs idle items) k) = some d) : ~~~d.value ∈ heldValues := by
  obtain ⟨-, hvalid, rfl⟩ := accepted_eq_some_iff.mp hd
  have hfamiliar : Familiar (Bench.inputAt (drivenInputs idle items) k) := by
    rcases inputAt_drivenInputs idle items k with hpower | ⟨item, hitem, heq⟩
    · rw [hpower]
      decide
    · rw [heq]
      exact h item hitem
  exact hfamiliar hvalid

/-- An item that offers a datum and takes the one held has its datum accepted,
whatever the module held. -/
theorem accepted_item (idle : ℕ) {items : List Request} {item : Request} {is_error : Bool}
    (hitem : item ∈ items)
    (hcontrols : Driver.controlsOf item = ⟨true, true, is_error, false, true⟩) :
    ∃ k < idle + items.length, accepted (edgeAt (drivenInputs idle items) k) =
      some (presented (Driver.itemDispatch item .powerUp)) := by
  obtain ⟨j, hj, rfl⟩ := List.mem_iff_getElem.mp hitem
  refine ⟨idle + j, by omega, ?_⟩
  obtain ⟨hun, -⟩ := edgeAt_spec (drivenInputs idle items) (idle + j)
  have hinput : (edgeAt (drivenInputs idle items) (idle + j)).input =
      Driver.itemDispatch items[j] .powerUp := by
    show Bench.inputAt (drivenInputs idle items) (idle + j) = _
    rw [drivenInputs, Driver.dispatchAll_eq, Driver.driven, Bench.inputAt,
      List.getElem?_append_right (by rw [List.length_replicate]; omega), List.length_replicate,
      Nat.add_sub_cancel_left, List.getElem?_map, List.getElem?_eq_getElem hj]
    rfl
  have hctl := EndToEnd.inputControls_dispatch items[j] .powerUp
  rw [hcontrols] at hctl
  have hadvance : (Driver.itemDispatch items[j] .powerUp).ctl.is_advance = true :=
    congrArg InputControls.is_advance hctl
  rw [accepted_eq_some_iff, hinput]
  refine ⟨⟨congrArg InputControls.reset hctl, congrArg InputControls.is_flush hctl, ?_⟩,
    congrArg InputControls.is_valid hctl, rfl⟩
  rw [computeAdvance_of_unstalled hun, hadvance, Bool.or_true]

/-- A test that makes the module hold each of the values. -/
def threeValues : List TestSequence :=
  [.make .errorWAdvanceValid 1, .make .allControlPairs 1]

theorem held_threeValues (beyond : ℕ → Char) (idle : ℕ) {v : Word} (hv : v ∈ heldValues) :
    ∃ k < idle + (threeValues.flatMap (·.doBody beyond)).length, ∃ d,
      accepted (edgeAt (drivenInputs idle (threeValues.flatMap (·.doBody beyond))) k) = some d ∧
        ~~~d.value = v := by
  have herror : ∀ item ∈ errorWAdvanceValidBody, item ∈ threeValues.flatMap (·.doBody beyond) :=
    fun item hitem => List.mem_append_left _ hitem
  have hsent : ∃ item ∈ threeValues.flatMap (·.doBody beyond), ∃ is_error,
      Driver.controlsOf item = ⟨true, true, is_error, false, true⟩ ∧
        ~~~(Driver.itemDispatch item .powerUp).data.value = v := by
    simp only [heldValues, List.mem_cons, List.not_mem_nil, or_false] at hv
    rcases hv with rfl | rfl | rfl
    · -- the pair whose first cycle offers a datum and takes one
      have hpair := (pair_adjacent beyond (le_refl 1) (by decide : 800 < sequence_count)).subset
        (List.mem_cons_self ..)
      refine ⟨.valueFixed (pairRequest beyond (BitVec.ofNat 32 800) 0), ?_, false, rfl,
        Driver.itemDispatch_data _ _⟩
      apply List.mem_append_right
      exact List.mem_append_left _ (List.mem_append_left _ hpair)
    · refine ⟨errorWAdvanceValidBody[2], herror _ (List.getElem_mem _), false, rfl, ?_⟩
      exact Driver.itemDispatch_data _ _
    · refine ⟨errorWAdvanceValidBody[3], herror _ (List.getElem_mem _), true, rfl, ?_⟩
      exact Driver.itemDispatch_data _ _
  obtain ⟨item, hitem, is_error, hcontrols, hvalue⟩ := hsent
  obtain ⟨k, hk, hd⟩ := accepted_item idle hitem hcontrols
  exact ⟨k, hk, _, hd, hvalue⟩

theorem startAll_of_drawsNothing (beyond : ℕ → Char) (g : Request.Generator)
    {sequences : List TestSequence} (h : ∀ s ∈ sequences, s.m_spinning = false ∧ DrawsNothing s) :
    startAll beyond g sequences = .ok (sequences.flatMap (·.doBody beyond)) ∧
      ∀ item ∈ sequences.flatMap (·.doBody beyond),
        Familiar (Driver.itemDispatch item .powerUp) := by
  have hbody : ∀ item ∈ sequences.flatMap (·.doBody beyond),
      item.IsFixed ∧ Familiar (Driver.itemDispatch item .powerUp) := by
    intro item hitem
    rcases List.mem_flatMap.mp hitem with ⟨s, hs, hmem⟩
    exact items_of_drawsNothing beyond (h s hs).2 item hmem
  refine ⟨?_, fun item hitem => (hbody item hitem).2⟩
  rw [startAll_eq beyond g fun s hs => (h s hs).1,
    sendItems_of_isFixed g fun item hitem => (hbody item hitem).1]

theorem threeValues_drawsNothing :
    ∀ s ∈ threeValues, s.m_spinning = false ∧ DrawsNothing s := by
  simp [threeValues, TestSequence.make, DrawsNothing]

/-- **What tests without random items can see.** A fault of the outputs escapes
every such test, whatever its sequences, counts and timing and whatever it
covers, exactly when it leaves the three values alone. -/
theorem fixed_tests_see (fault : Fault) :
    (∀ (beyond : ℕ → Char) (g : Request.Generator) (signals : SingleCycleSignals)
        (sequences : List TestSequence) (idle clocks : ℕ),
        (∀ s ∈ sequences, s.m_spinning = false ∧ DrawsNothing s) → clocks ≤ runTime →
          AnyModule.scMain fault.uvmModule beyond g signals initialised sequences idle clocks =
            UvmTest.scMain beyond g signals sequences idle clocks) ↔
      ∀ v ∈ heldValues, fault.value v = v := by
  constructor
  · intro hall v hv
    obtain ⟨hitems, -⟩ :=
      startAll_of_drawsNothing (fun _ => '?') ⟨fun _ => 0, 0⟩ threeValues_drawsNothing
    have hlen : (threeValues.flatMap (·.doBody fun _ => '?')).length = 2056 := by
      simp only [threeValues, List.flatMap_cons, List.flatMap_nil, List.length_append,
        length_doBody, TestSequence.make]
      rfl
    have hcover : Covers (drivenInputs 1 (threeValues.flatMap (·.doBody fun _ => '?'))) 2058 :=
      covers_of_pairs (fun _ => '?') ⟨fun _ => 0, 0⟩
        (List.mem_cons_of_mem _ (List.mem_singleton.mpr rfl)) rfl (by decide)
        (fun s hs => (threeValues_drawsNothing s hs).1) hitems (by omega)
    have hsame := hall (fun _ => '?') ⟨fun _ => 0, 0⟩ .ugly threeValues 1 2058
      threeValues_drawsNothing (by decide)
    rw [(scMain_iff _ _ _ hitems 1 (by decide)).1.mpr hcover] at hsame
    have hclear := ((uvm_codes fault .ugly hitems 1 (by decide)).1.mp hsame).2
    obtain ⟨k, hk, d, hd, rfl⟩ := held_threeValues (fun _ => '?') 1 hv
    exact hclear k (by omega) d hd
  · intro hkeeps beyond g signals sequences idle clocks hseq hclocks
    obtain ⟨hitems, hfamiliar⟩ := startAll_of_drawsNothing beyond g hseq
    have hlt : clocks < 2 ^ 32 := lt_of_le_of_lt hclocks (by decide)
    have hclear : Transparent fault (drivenInputs idle (sequences.flatMap (·.doBody beyond)))
        clocks := fun k _ d hd => hkeeps _ (held_of_familiar hfamiliar hd)
    exact scMain_of_transparent fault signals hitems hlt hclear

/-! ## Tests with a random item -/

/-- Random numbers that make every random item offer a datum, take the one held
and set its binary to `v`. -/
def constantly (v : Word) (n : ℕ) : BitVec 64 :=
  if n % 3 = 0 then wordFor ⟨true, true, false, false, true⟩ else v.setWidth 64

/-- The item they make. -/
def drawnItem (v : Word) : Request := .randomWeighted ⟨true, true, false, false, true, v, v⟩

theorem low_word (v : Word) : ((0xFFFFFFFF : BitVec 64) &&& v.setWidth 64).setWidth 32 = v := by
  have hmask : (0xFFFFFFFF : BitVec 64).setWidth 32 = BitVec.allOnes 32 := by decide
  rw [BitVec.setWidth_and, hmask, BitVec.allOnes_and, BitVec.setWidth_setWidth_of_le v (by decide),
    BitVec.setWidth_eq]

theorem randomise_constantly (v : Word) (r : RandomWeighted) (c : ℕ) :
    (Request.randomWeighted r).randomise ⟨constantly v, 3 * c⟩ =
      (drawnItem v, ⟨constantly v, 3 * (c + 1)⟩) := by
  have hfirst : constantly v (3 * c) = wordFor ⟨true, true, false, false, true⟩ :=
    if_pos (by omega)
  have hsecond : constantly v (3 * c + 1) = v.setWidth 64 := if_neg (by omega)
  have hthird : constantly v (3 * c + 1 + 1) = v.setWidth 64 := if_neg (by omega)
  rw [Request.randomise, RandomWeighted.randomise]
  simp only [Generator.random64u, hfirst, hsecond, hthird, low_word]
  rfl

theorem sendItems_constantly (v : Word) (items : List Request) (c : ℕ)
    (h : ∃ r, Request.randomWeighted r ∈ items) :
    drawnItem v ∈ (sendItems ⟨constantly v, 3 * c⟩ items).1 := by
  induction items generalizing c with
  | nil =>
      obtain ⟨r, hr⟩ := h
      cases hr
  | cons item items ih =>
      obtain ⟨r, hr⟩ := h
      rw [sendItems]
      cases item with
      | randomWeighted r' =>
          rw [randomise_constantly]
          exact List.mem_cons_self ..
      | _ =>
          -- it is sent as it is, and draws nothing
          rcases List.mem_cons.mp hr with hno | hmem
          · cases hno
          · exact List.mem_cons_of_mem _ (ih c ⟨r, hmem⟩)

/-- **What tests with a random item can see.** Take any list of sequences that
enumerates the pairs and sends a random item. A fault of the outputs escapes it
whatever the random numbers and the timing exactly when the data output shows no
fault on any value. -/
theorem random_tests_see (beyond : ℕ → Char) (signals : SingleCycleSignals)
    (sequences : List TestSequence) (hidle : ∀ s ∈ sequences, s.m_spinning = false)
    (hpairs : ∃ s ∈ sequences, s.kind = .allControlPairs ∧ 1 ≤ s.m_count.toNat)
    (hrandom : ∃ s ∈ sequences,
      (s.kind = .randomWeighted ∨ s.kind = .randomLoop) ∧ 1 ≤ s.m_count.toNat)
    (hroom : (sequences.flatMap (·.doBody beyond)).length < runTime) (fault : Fault) :
    (∀ (g : Generator) (idle clocks : ℕ), clocks ≤ runTime →
        AnyModule.scMain fault.uvmModule beyond g signals initialised sequences idle clocks =
          UvmTest.scMain beyond g signals sequences idle clocks) ↔
      ∀ v, fault.value v = v := by
  constructor
  · intro hall v
    have hitems := startAll_eq beyond ⟨constantly v, 3 * 0⟩ hidle
    have hsent : drawnItem v ∈ (sendItems ⟨constantly v, 3 * 0⟩
        (sequences.flatMap (·.doBody beyond))).1 := by
      obtain ⟨s, hs, hkind, hcount⟩ := hrandom
      refine sendItems_constantly v _ 0 ⟨.fresh, List.mem_flatMap.mpr ⟨s, hs, ?_⟩⟩
      have hmem : Request.randomWeighted .fresh ∈
          List.replicate s.m_count.toNat (Request.randomWeighted .fresh) :=
        List.mem_replicate.mpr ⟨by omega, rfl⟩
      rcases hkind with hkind | hkind <;>
        · simp only [TestSequence.doBody, hkind]
          exact List.mem_append_left _ (List.mem_append_right _ hmem)
    have hlen := length_sendItems ⟨constantly v, 3 * 0⟩ (sequences.flatMap (·.doBody beyond))
    obtain ⟨s, hs, hkind, hcount⟩ := hpairs
    have hcover := covers_of_pairs beyond ⟨constantly v, 3 * 0⟩ hs hkind hcount hidle hitems
      (show 0 + _ ≤ (sequences.flatMap (·.doBody beyond)).length + 1 by omega)
    have hlt : (sequences.flatMap (·.doBody beyond)).length + 1 < 2 ^ 32 :=
      lt_of_le_of_lt hroom (by decide)
    have hsame := hall ⟨constantly v, 3 * 0⟩ 0 _ hroom
    rw [(scMain_iff beyond _ signals hitems 0 hlt).1.mpr hcover] at hsame
    have hclear := ((uvm_codes fault signals hitems 0 hlt).1.mp hsame).2
    obtain ⟨k, hk, hd⟩ := accepted_item 0 hsent rfl
    have hheld := hclear k (by omega) _ hd
    rw [show ~~~(presented (Driver.itemDispatch (drawnItem v) .powerUp)).value = v from
      Driver.itemDispatch_data _ _] at hheld
    exact hheld
  · intro hnone g idle clocks hclocks
    rcases startAll_ok beyond g hidle with ⟨items, hitems⟩
    have hlt : clocks < 2 ^ 32 := lt_of_le_of_lt hclocks (by decide)
    have hclear : Transparent fault (drivenInputs idle items) clocks :=
      fun k _ d _ => hnone _
    exact scMain_of_transparent fault signals hitems hlt hclear

/-- The shipped test, and a low bit that is stuck at zero. -/
theorem random_tests_see_stuck :
    (∀ (g : Generator) (idle clocks : ℕ), clocks ≤ runTime →
        AnyModule.scMain
            (Fault.uvmModule ⟨(· &&& 0xFFFFFFFE), fun _ => 0, fun _ => 0, fun _ => ""⟩)
            (fun _ => '?') g .ugly initialised sequences idle clocks =
          UvmTest.scMain (fun _ => '?') g .ugly sequences idle clocks) ↔
      ∀ v : Word, v &&& 0xFFFFFFFE = v := by
  refine random_tests_see (fun _ => '?') .ugly sequences sequences_idle ?_ ?_ ?_ _
  · exact ⟨.make .allControlPairs (TestSequence.countDefault .allControlPairs),
      by simp [sequences], rfl, by decide⟩
  · exact ⟨.make .randomWeighted (TestSequence.countDefault .randomWeighted),
      by simp [sequences], Or.inl rfl, by decide⟩
  · rw [length_sequences]
    decide

end PipelineBench.OutputFaults
