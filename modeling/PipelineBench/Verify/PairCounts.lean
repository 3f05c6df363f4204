import PipelineBench.Verify.EndToEnd

/-!
# What the pair sequence adds to the pair counter

`all_control_pairs_t` against the table of the pair board, whatever the table
holds to begin with. Every pair occurs once inside a block of two cycles and
once across neighbouring blocks; the ends of the sequence account for the rest.
-/

namespace PipelineBench.PairCounts

open Sequence ScoreBoard Transaction Monitor Consecutive
open TestBench (observed observed_nil observe_of_valid observed_cons)

/-! ## The board over a list of transactions -/

/-- `control_bit_pairs_t::write` of one transaction after the other. -/
def writes (b : ControlBitPairs) (ts : List SingleCycleTransaction) :
    Except Abort ControlBitPairs :=
  ts.foldlM (fun b t => (b.write t).map Prod.fst) b

/-- A control combination as the board files it. -/
abbrev Code := Fin (2 ^ nInputControlBits)

def codeOf (t : SingleCycleTransaction) : Code :=
  controlIndex t.m_value.stimuli.controls

theorem writes_of_good {ts : List SingleCycleTransaction} (hgood : ∀ t ∈ ts, t.good = true)
    {b : ControlBitPairs} (hvalid : b.m_count.prior_valid = true) :
    writes b ts = .ok ⟨observed b.m_count (ts.map codeOf)⟩ := by
  unfold writes
  induction ts generalizing b with
  | nil =>
      rw [List.map_nil, observed_nil hvalid]
      rfl
  | cons t ts ih =>
      have hobs := observe_of_valid hvalid (codeOf t)
        (show (controlCode t.m_value.stimuli.controls).toNat = _ from rfl)
      have hwrite := ControlBitPairs.write_of_good b (hgood t (List.mem_cons_self ..))
      have hrest : ∀ u ∈ ts, u.good = true := fun u hu => hgood u (List.mem_cons_of_mem _ hu)
      rw [hobs] at hwrite
      rw [List.foldlM_cons, hwrite, List.map_cons, ← observed_cons _ _ (ts.map codeOf)]
      exact ih hrest (b := ⟨observed b.m_count [codeOf t]⟩) rfl

/-! ## The codes of the sequence -/

/-- The codes of the two cycles of a sequence number, high bits first. -/
def codePair (n : ℕ) : Code × Code := (Fin.ofNat 32 (n / 32), Fin.ofNat 32 n)

/-- The blocks of one iteration. -/
def iteration : List (Code × Code) := (List.range sequence_count).map codePair

/-- The blocks of all iterations. -/
def iterations (count : ℕ) : List (Code × Code) :=
  (List.range count).flatMap fun _ => iteration

theorem iterations_succ (count : ℕ) : iterations (count + 1) = iteration ++ iterations count := by
  unfold iterations
  rw [List.range_succ_eq_map, List.flatMap_cons, List.flatMap_map]

theorem pairNumber_codePair {n : ℕ} (hn : n < sequence_count) :
    EndToEnd.pairNumber (codePair n).1 (codePair n).2 = n := by
  have hn' : n < 1024 := hn
  show 32 * (n / 32 % 32) + n % 32 = n
  omega

theorem pairItems_codes (beyond : ℕ → Char) :
    (pairItems beyond).map (controlIndex ∘ Driver.controlsOf) = stream iteration := by
  unfold pairItems stream iteration
  rw [List.map_flatMap, List.flatMap_map]
  apply List.flatMap_congr
  intro n hn
  rcases EndToEnd.pairRequest_controls beyond (codePair n).1 (codePair n).2 with
    ⟨hfirst, hsecond⟩
  rw [pairNumber_codePair (List.mem_range.mp hn)] at hfirst hsecond
  show [controlIndex (Driver.controlsOf _), controlIndex (Driver.controlsOf _)] = _
  rw [hfirst, hsecond, controlIndex_controlsOf, controlIndex_controlsOf]

/-- The closing holds are one block more. -/
theorem body_codes (beyond : ℕ → Char) (count : ℕ) :
    (allControlPairsBody beyond count).map (controlIndex ∘ Driver.controlsOf) =
      stream (iterations count ++ [(24, 24)]) := by
  have hholds : [Request.hold, .hold].map (controlIndex ∘ Driver.controlsOf) =
      stream [(24, 24)] := by
    decide
  unfold allControlPairsBody iterations
  rw [List.map_append, List.map_flatMap, pairItems_codes, hholds]
  unfold stream
  rw [List.flatMap_append, List.flatMap_assoc]

/-! ## Counting -/

/-- A list that runs once through a type, by a numbering of the type. -/
theorem count_map_range {β : Type*} [BEq β] [LawfulBEq β] {m : ℕ} (h : ℕ → β) (number : β → ℕ)
    (hnumber : ∀ n < m, number (h n) = n) (x : β) (hlt : number x < m) (hx : h (number x) = x) :
    ((List.range m).map h).count x = 1 := by
  apply List.count_eq_one_of_mem
  · apply List.Nodup.map_on
    · intro n hn k hk heq
      rw [← hnumber n (List.mem_range.mp hn), heq, hnumber k (List.mem_range.mp hk)]
    · exact List.nodup_range
  · rw [← hx]
    exact List.mem_map_of_mem (List.mem_range.mpr hlt)

section Counting

variable (p : Code) (x : Code × Code)

/-- Inside the blocks of an iteration every pair occurs once. -/
theorem count_iteration : iteration.count x = 1 := by
  apply count_map_range _ fun y => EndToEnd.pairNumber y.1 y.2
  · intro n hn
    exact pairNumber_codePair hn
  · exact EndToEnd.pairNumber_lt x.1 x.2
  · obtain ⟨a, b⟩ := x
    have ha : a.val < 32 := a.isLt
    have hb : b.val < 32 := b.isLt
    show (Fin.ofNat 32 ((32 * a.val + b.val) / 32), Fin.ofNat 32 (32 * a.val + b.val)) = (a, b)
    rw [Prod.mk.injEq, Fin.ext_iff, Fin.ext_iff]
    show (32 * a.val + b.val) / 32 % 32 = a.val ∧ (32 * a.val + b.val) % 32 = b.val
    omega

/-- The joints of an iteration: the one to its first block, then the low bits of
a sequence number before the high bits of the next. -/
theorem joints_iteration :
    joints p iteration =
      (p, 0) :: (List.range 1023).map fun k => ((codePair k).2, (codePair (k + 1)).1) :=
  joints_map_range p codePair 1023

/-- Every pair is once a joint of an iteration that follows another. -/
theorem count_joints_cycle : (joints 31 iteration).count x = 1 := by
  have hcycle : joints 31 iteration =
      (List.range (1023 + 1)).map fun n => (Fin.ofNat 32 (n + 31), Fin.ofNat 32 (n / 32)) := by
    rw [joints_iteration, @List.range_succ_eq_map 1023, List.map_cons, List.map_map]
    apply congrArg₂ List.cons rfl
    apply List.map_congr_left
    intro k _
    have hprior : k % 32 = (k + 1 + 31) % 32 := by omega
    exact Prod.ext (Fin.ext hprior) rfl
  -- the second component is the high bits, and the first lags the low bits by one
  rw [hcycle]
  apply count_map_range _ fun y => 32 * y.2.val + (y.1.val + 1) % 32
  · intro n hn
    have hn' : n < 1024 := hn
    show 32 * (n / 32 % 32) + ((n + 31) % 32 + 1) % 32 = n
    omega
  · have hb : x.2.val < 32 := x.2.isLt
    show 32 * x.2.val + (x.1.val + 1) % 32 < 1024
    omega
  · obtain ⟨a, b⟩ := x
    have ha : a.val < 32 := a.isLt
    have hb : b.val < 32 := b.isLt
    rw [Prod.mk.injEq, Fin.ext_iff, Fin.ext_iff]
    show (32 * b.val + (a.val + 1) % 32 + 31) % 32 = a.val ∧
      (32 * b.val + (a.val + 1) % 32) / 32 % 32 = b.val
    omega

/-- Behind any other code only the first joint differs. -/
theorem count_joints :
    (joints p iteration).count x + [((31, 0) : Code × Code)].count x =
      1 + [(p, 0)].count x := by
  have hcycle := count_joints_cycle x
  rw [joints_iteration, List.count_cons] at hcycle ⊢
  rw [List.count_singleton, List.count_singleton]
  omega

/-- The last block of an iteration ends in 31. -/
theorem joints_iteration_append (l : List (Code × Code)) :
    joints p (iteration ++ l) = joints p iteration ++ joints 31 l := by
  have hlast : iteration = (List.range 1023).map codePair ++ [(31, 31)] := by
    unfold iteration
    rw [show sequence_count = 1023 + 1 from rfl, List.range_succ, List.map_append]
    rfl
  rw [hlast, List.append_assoc]
  exact joints_append p 31 31 _ l

/-- Each iteration counts every pair once as a joint. -/
theorem count_joints_iterations (count : ℕ) (l : List (Code × Code)) :
    (joints 31 (iterations count ++ l)).count x = count + (joints 31 l).count x := by
  induction count with
  | zero => exact (Nat.zero_add _).symm
  | succ count ih =>
      rw [iterations_succ, List.append_assoc, joints_iteration_append, List.count_append, ih,
        count_joints_cycle]
      omega

theorem count_iterations (count : ℕ) : (iterations count).count x = count := by
  induction count with
  | zero => rfl
  | succ count ih =>
      rw [iterations_succ, List.count_append, ih, count_iteration]
      omega

end Counting

/-- How often the pair `(a, b)` is hit when the bits before were `p`. -/
def pairHits (count : ℕ) (p a b : Code) : ℕ :=
  2 * count - (if (a, b) = (31, 0) then 1 else 0) + (if (a, b) = (p, 0) then 1 else 0) +
    (if (a, b) = (31, 24) then 1 else 0) + (if (a, b) = (24, 24) then 1 else 0)

theorem pairHits_bounds (count : ℕ) (p a b : Code) :
    2 * count - 1 ≤ pairHits count p a b ∧ pairHits count p a b ≤ 2 * count + 3 := by
  have hle : ∀ (q : Prop) [Decidable q], (if q then 1 else 0) ≤ 1 := by
    intro q _
    split <;> omega
  have hwrap := hle ((a, b) = (31, 0))
  have hprior := hle ((a, b) = (p, 0))
  have hhold := hle ((a, b) = (31, 24))
  have hholds := hle ((a, b) = (24, 24))
  unfold pairHits
  omega

theorem count_body {count : ℕ} (hcount : 1 ≤ count) (p a b : Code) :
    (p :: stream (iterations count ++ [(24, 24)])).consecutivePairs.count (a, b) =
      pairHits count p a b := by
  -- the first iteration follows `p`; the others, and the holds, follow 31
  obtain ⟨c, rfl⟩ := Nat.exists_eq_add_of_le' hcount
  have hjoints := count_joints p (a, b)
  have hindicator : ∀ y : Code × Code, [y].count (a, b) = if (a, b) = y then 1 else 0 := by
    intro y
    rw [List.count_singleton]
    exact if_congr (beq_iff_eq.trans eq_comm) rfl rfl
  rw [count_pairs_stream, List.count_append, count_iterations, iterations_succ,
    List.append_assoc, joints_iteration_append, List.count_append, count_joints_iterations]
  have hhold : joints (31 : Code) [(24, 24)] = [(31, 24)] := rfl
  rw [hhold, hindicator, hindicator]
  rw [hindicator, hindicator] at hjoints
  have hle : (if (a, b) = ((31, 0) : Code × Code) then 1 else 0) ≤ 1 := by
    split <;> omega
  unfold pairHits
  omega

/-- The codes of the stimuli a list of items drives. -/
theorem codes_of_stimuli {ts : List SingleCycleTransaction} {vif : MutInput}
    {items : List Request}
    (h : ts.map (·.m_value.stimuli) = (Driver.dispatchAll vif items).map sampleStimuli) :
    ts.map codeOf = items.map (controlIndex ∘ Driver.controlsOf) := by
  have hcodes := congrArg (List.map fun st => controlIndex (MutInputStimuli.controls st)) h
  rw [List.map_map, List.map_map, Driver.dispatchAll_eq] at hcodes
  calc ts.map codeOf
      = (Driver.driven items).map (controlIndex ∘ EndToEnd.inputControls) := hcodes
    _ = ((Driver.driven items).map EndToEnd.inputControls).map controlIndex := by
        rw [List.map_map]
    _ = items.map (controlIndex ∘ Driver.controlsOf) := by
        rw [EndToEnd.inputControls_driven, List.map_map]

/-- **Exact pair counts.** The items of an `all_control_pairs_t`, driven one a
clock and observed one by one, add `pairHits` to the entry of every pair,
whatever the table held before; a single iteration hits them all. -/
theorem all_control_pairs_counts (beyond : ℕ → Char) (g : Request.Generator) (s : TestSequence)
    (hkind : s.kind = .allControlPairs) (hlow : 1 ≤ s.m_count.toNat)
    (hhigh : s.m_count.toNat < 2 ^ 30) (vif : MutInput) (board : ControlBitPairs)
    (hvalid : board.m_count.prior_valid = true) (ts : List SingleCycleTransaction)
    (hgood : ∀ t ∈ ts, t.good = true)
    (hstimuli : ts.map (·.m_value.stimuli) =
      (Driver.dispatchAll vif (sendItems g (s.doBody beyond)).1).map sampleStimuli) :
    ∃ board', writes board ts = .ok board' ∧ ∀ a b,
      board'.m_count.check_array a b = board.m_count.check_array a b +
        BitVec.ofNat 32 (pairHits s.m_count.toNat board.m_count.prior_bits a b) ∧
      2 * s.m_count.toNat - 1 ≤ pairHits s.m_count.toNat board.m_count.prior_bits a b ∧
      1 ≤ pairHits s.m_count.toNat board.m_count.prior_bits a b ∧
      pairHits s.m_count.toNat board.m_count.prior_bits a b < 2 ^ 32 := by
  have hbody : s.doBody beyond = allControlPairsBody beyond s.m_count.toNat := by
    rw [TestSequence.doBody, hkind]
  rw [hbody, sendItems_of_isFixed g (allControlPairsBody_isFixed beyond _)] at hstimuli
  have hcodes := codes_of_stimuli hstimuli
  rw [body_codes] at hcodes
  refine ⟨_, writes_of_good hgood hvalid, ?_⟩
  intro a b
  rw [hcodes]
  refine ⟨?_, ?_⟩
  · show _ + BitVec.ofNat 32 _ = _
    rw [count_body hlow]
  · have hbounds := pairHits_bounds s.m_count.toNat board.m_count.prior_bits a b
    omega

/-- One iteration over a table that nothing but a hold was observed in. -/
theorem all_control_pairs_counts_hold :
    let items := allControlPairsBody (fun _ => '?') 1
    let ts : List SingleCycleTransaction :=
      (Driver.dispatchAll .powerUp items).map fun inp =>
        ⟨true, { SingleCycleSignals.ugly with stimuli := sampleStimuli inp }⟩
    ∃ board', writes ⟨⟨fun _ _ => 0, 24, true⟩⟩ ts = .ok board' ∧ ∀ a b,
      board'.m_count.check_array a b = 0 + BitVec.ofNat 32 (pairHits 1 24 a b) ∧
      2 * 1 - 1 ≤ pairHits 1 24 a b ∧ 1 ≤ pairHits 1 24 a b ∧ pairHits 1 24 a b < 2 ^ 32 := by
  intro items ts
  apply all_control_pairs_counts (fun _ => '?') ⟨fun _ => 0, 0⟩ (.make .allControlPairs 1) rfl
    (by decide) (by decide) .powerUp ⟨⟨fun _ _ => 0, 24, true⟩⟩ rfl ts
  · intro t ht
    obtain ⟨inp, -, rfl⟩ := List.mem_map.mp ht
    rfl
  · have hsent :=
      sendItems_of_isFixed ⟨fun _ => 0, 0⟩ (allControlPairsBody_isFixed (fun _ => '?') 1)
    show ts.map _ = (Driver.dispatchAll .powerUp (sendItems _ items).1).map sampleStimuli
    rw [hsent, List.map_map]
    rfl

end PipelineBench.PairCounts
