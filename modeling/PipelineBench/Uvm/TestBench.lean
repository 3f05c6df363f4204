import PipelineBench.Uvm.ScoreBoard

/-!
# The test bench and its verdict

`test_bench.h`: three score boards behind one analysis port and the conjunction
that decides the test. A board is understood through the list of transactions it
was given: the counters hold the number of verdicts of each kind, the pair table
holds the number of times each control combination followed each other.
-/

namespace PipelineBench

open PipelineBench.Transaction PipelineBench.Predictor PipelineBench.ScoreBoard

/-- `test_bench::EXAMPLE::single_cycle_t`. A board is absent until the build
phase has made it. `reports` is what the boards have printed. -/
structure TestBench where
  m_sb_controls : Option ControlBits
  m_sb_values : Option DataValues
  m_sb_pairs : Option ControlBitPairs
  reports : List Report

namespace TestBench

/-- After the build and connect phases. -/
def built : TestBench := ⟨some .fresh, some .fresh, some .fresh, []⟩

def isPass (b : TestBench) : Bool :=
  b.m_sb_controls.any ControlBits.isPass &&
  b.m_sb_values.any DataValues.isPass &&
  b.m_sb_pairs.any ControlBitPairs.isPass

/-- Deliver an item to a board, if it is connected. -/
def listen {β : Type}
    (write : β → SingleCycleTransaction → Except Abort (β × List Report))
    (board : Option β) (item : SingleCycleTransaction) :
    Except Abort (Option β × List Report) :=
  match board with
  | none => .ok (none, [])
  | some b => (write b item).map fun (b', reports) => (some b', reports)

/-- The analysis port calls the boards in the order they were connected. -/
def write (b : TestBench) (item : SingleCycleTransaction) : Except Abort TestBench := do
  let (controls, r₁) ← listen ControlBits.write b.m_sb_controls item
  let (values, r₂) ← listen DataValues.write b.m_sb_values item
  let (pairs, r₃) ← listen ControlBitPairs.write b.m_sb_pairs item
  return ⟨controls, values, pairs, b.reports ++ r₁ ++ r₂ ++ r₃⟩

def writes (b : TestBench) (items : List SingleCycleTransaction) : Except Abort TestBench :=
  items.foldlM write b

/-! ## What the counters hold -/

/-- The counters after a list of verdicts. -/
def ofVerdicts (vs : List Verdict) : PassFailCount where
  m_fail := BitVec.ofNat 32 (vs.count .fail)
  m_moot := BitVec.ofNat 32 (vs.count .moot)
  m_pass := BitVec.ofNat 32 (vs.count .pass)

theorem ofVerdicts_concat (vs : List Verdict) (v : Verdict) :
    ofVerdicts (vs ++ [v]) = (ofVerdicts vs).record v := by
  cases v <;>
    simp [ofVerdicts, PassFailCount.record, PassFailCount.fail, PassFailCount.moot,
      PassFailCount.pass, List.count_append, BitVec.ofNat_add]

theorem count_toNat {vs : List Verdict} (v : Verdict) (h : vs.length < 2 ^ 32) :
    (BitVec.ofNat 32 (vs.count v)).toNat = vs.count v := by
  have hle := @List.count_le_length _ _ v vs
  rw [BitVec.toNat_ofNat, Nat.mod_eq_of_lt (by omega)]

theorem isPass_ofVerdicts {vs : List Verdict} (h : vs.length < 2 ^ 32) :
    (ofVerdicts vs).isPass = true ↔ .pass ∈ vs ∧ .fail ∉ vs := by
  have hp := count_toNat .pass h
  have hf := count_toNat .fail h
  rw [PassFailCount.isPass, Bool.and_eq_true, decide_eq_true_eq, beq_iff_eq]
  simp only [ofVerdicts]
  rw [gt_iff_lt, BitVec.lt_def, hp, ← BitVec.toNat_inj, hf]
  simp [List.count_eq_zero]

/-- The three counts of a list of verdicts add up to its length. -/
theorem ofVerdicts_sum {vs : List Verdict} (h : vs.length < 2 ^ 32) :
    (ofVerdicts vs).m_pass.toNat + (ofVerdicts vs).m_fail.toNat +
      (ofVerdicts vs).m_moot.toNat = vs.length := by
  have hp := count_toNat .pass h
  have hf := count_toNat .fail h
  have hm := count_toNat .moot h
  simp only [ofVerdicts, hp, hf, hm]
  clear h hp hf hm
  induction vs with
  | nil => rfl
  | cons v vs ih =>
      cases v <;> simp <;> omega

/-! ## What the pair table holds -/

section PairTable

variable {N : ℕ}

/-- A table that has a prior observation, after more of them. -/
def observed (t : PairTable N) (codes : List (Fin (2 ^ N))) : PairTable N where
  check_array a b :=
    t.check_array a b + BitVec.ofNat 32 ((t.prior_bits :: codes).consecutivePairs.count (a, b))
  prior_bits := codes.getLast?.getD t.prior_bits
  prior_valid := true

theorem observed_nil {t : PairTable N} (hvalid : t.prior_valid = true) : observed t [] = t := by
  cases t
  simp only at hvalid
  subst hvalid
  simp [observed]

/-- One observation adds the pair it forms with the prior one. -/
theorem observe_of_valid {t : PairTable N} (hvalid : t.prior_valid = true) (code : Fin (2 ^ N))
    {bits : Unsigned} (hbits : bits.toNat = code.val) :
    t.observe bits = .ok (observed t [code]) := by
  have hlt : bits.toNat < 2 ^ N := hbits ▸ code.isLt
  have hcode : (⟨bits.toNat, hlt⟩ : Fin (2 ^ N)) = code := Fin.ext hbits
  rw [PairTable.observe, dif_pos hlt]
  simp only [hcode, hvalid, if_true, observed, List.getLast?_singleton, Option.getD_some]
  congr 2
  funext a b
  rw [Consecutive.pairs_cons_cons, Consecutive.pairs_singleton, List.count_singleton]
  by_cases hab : a = t.prior_bits ∧ b = code
  · rcases hab with ⟨rfl, rfl⟩
    rw [if_pos ⟨rfl, rfl⟩, if_pos (beq_self_eq_true _)]
    rfl
  · have hne : ¬ ((t.prior_bits, code) == (a, b)) = true := by
      rw [beq_iff_eq, Prod.mk.injEq]
      exact fun heq => hab ⟨heq.1.symm, heq.2.symm⟩
    rw [if_neg hab, if_neg hne]
    exact (BitVec.add_zero _).symm

theorem observed_cons (t : PairTable N) (code : Fin (2 ^ N)) (codes : List (Fin (2 ^ N))) :
    observed (observed t [code]) codes = observed t (code :: codes) := by
  have hlast : codes.getLast?.getD code = (code :: codes).getLast?.getD t.prior_bits := by
    rw [List.getLast?_cons]
    rfl
  unfold observed
  congr 1
  funext a b
  show t.check_array a b + BitVec.ofNat 32 ([(t.prior_bits, code)].count (a, b)) +
    BitVec.ofNat 32 ((code :: codes).consecutivePairs.count (a, b)) = _
  rw [List.count_singleton, Consecutive.pairs_cons_cons, List.count_cons, BitVec.add_assoc,
    ← BitVec.ofNat_add, Nat.add_comm]

/-- The table after a list of observations. -/
def ofCodes (codes : List (Fin (2 ^ N))) : PairTable N where
  check_array a b := BitVec.ofNat 32 (codes.consecutivePairs.count (a, b))
  prior_bits := codes.getLast?.getD ⟨0, Nat.two_pow_pos N⟩
  prior_valid := !codes.isEmpty

/-- One observation counts the pair it forms with the previous one; the first
observation counts nothing. -/
theorem observe_ofCodes (codes : List (Fin (2 ^ N))) (code : Fin (2 ^ N)) {bits : Unsigned}
    (hbits : bits.toNat = code.val) :
    (ofCodes codes).observe bits = .ok (ofCodes (codes ++ [code])) := by
  rcases List.eq_nil_or_concat codes with rfl | ⟨pre, last, rfl⟩
  · have hlt : bits.toNat < 2 ^ N := hbits ▸ code.isLt
    have hcode : (⟨bits.toNat, hlt⟩ : Fin (2 ^ N)) = code := Fin.ext hbits
    rw [PairTable.observe, dif_pos hlt]
    simp [hcode, ofCodes]
  · rw [List.concat_eq_append]
    have hvalid : (ofCodes (pre ++ [last])).prior_valid = true := by simp [ofCodes]
    have hprior : (ofCodes (pre ++ [last])).prior_bits = last := by simp [ofCodes]
    have hcount : ∀ x, (pre ++ [last] ++ [code]).consecutivePairs.count x =
        (pre ++ [last]).consecutivePairs.count x + [last, code].consecutivePairs.count x := by
      intro x
      rw [Consecutive.pairs_concat (pre ++ [last]), List.count_append, List.getLast?_concat]
      rfl
    rw [observe_of_valid hvalid code hbits]
    unfold observed
    rw [hprior]
    unfold ofCodes
    simp only [hcount, BitVec.ofNat_add]
    simp

/-- Fewer than `2 ^ 32` observations do not wrap a count. -/
theorem check_array_toNat {codes : List (Fin (2 ^ N))} (hlen : codes.length < 2 ^ 32)
    (a b : Fin (2 ^ N)) :
    ((ofCodes codes).check_array a b).toNat = codes.consecutivePairs.count (a, b) := by
  have hle := @List.count_le_length _ _ (a, b) codes.consecutivePairs
  rw [Consecutive.length_pairs] at hle
  show (BitVec.ofNat 32 _).toNat = _
  rw [BitVec.toNat_ofNat, Nat.mod_eq_of_lt (by omega)]

theorem foldl_and {α : Type*} (p : α → Bool) (l : List α) (init : Bool) :
    l.foldl (fun result x => result && p x) init = (init && l.all p) := by
  induction l generalizing init with
  | nil => simp
  | cons x l ih => rw [List.foldl_cons, ih, List.all_cons, Bool.and_assoc]

theorem isCoverageComplete_iff (t : PairTable N) :
    t.isCoverageComplete = true ↔ ∀ a b, 0 < (t.check_array a b).toNat := by
  rw [PairTable.isCoverageComplete, PairTable.forItems]
  simp only [foldl_and]
  simp [BitVec.lt_def]

theorem isCoverageComplete_ofCodes {codes : List (Fin (2 ^ N))} (h : codes.length < 2 ^ 32) :
    (ofCodes codes).isCoverageComplete = true ↔ ∀ a b, [a, b] <:+: codes := by
  rw [isCoverageComplete_iff]
  refine forall_congr' fun a => forall_congr' fun b => ?_
  rw [check_array_toNat h, List.count_pos_iff, Consecutive.mem_pairs_iff]

end PairTable

/-! ## The run of the bench -/

/-- The bench after good transactions with these signals. -/
def ofSignals (xs : List SingleCycleSignals) (reports : List Report) : TestBench where
  m_sb_controls := some ⟨ofVerdicts (xs.map ControlBits.verdict)⟩
  m_sb_values := some ⟨ofVerdicts (xs.map DataValues.verdict)⟩
  m_sb_pairs := some ⟨ofCodes (xs.map (controlIndex ·.stimuli.controls))⟩
  reports := reports

/-- One good transaction is filed by all three boards; a report is made only
for a failure. -/
theorem write_ofSignals (xs : List SingleCycleSignals) (rs : List Report)
    {t : SingleCycleTransaction} (h : t.good = true) :
    ∃ r, write (ofSignals xs rs) t = .ok (ofSignals (xs ++ [t.m_value]) (rs ++ r)) ∧
      (r = [] ↔ ControlBits.verdict t.m_value ≠ .fail ∧ DataValues.verdict t.m_value ≠ .fail) := by
  obtain ⟨r₁, hw₁, hr₁⟩ :=
    ControlBits.write_of_good ⟨ofVerdicts (xs.map ControlBits.verdict)⟩ h
  obtain ⟨r₂, hw₂, hr₂⟩ :=
    DataValues.write_of_good ⟨ofVerdicts (xs.map DataValues.verdict)⟩ h
  have hw₃ := ControlBitPairs.write_of_good
    ⟨ofCodes (xs.map (controlIndex ·.stimuli.controls))⟩ h
  have hobs := observe_ofCodes (xs.map (controlIndex ·.stimuli.controls))
    (controlIndex t.m_value.stimuli.controls)
    (show (controlCode t.m_value.stimuli.controls).toNat = _ from rfl)
  rw [hobs] at hw₃
  refine ⟨r₁ ++ r₂, ?_, ?_⟩
  · simp only [write, ofSignals, listen, hw₁, hw₂, hw₃, Except.map, bind, Except.bind, pure,
      Except.pure, List.map_append, List.map_cons, List.map_nil, ofVerdicts_concat,
      List.append_nil, List.append_assoc]
  · rw [List.append_eq_nil_iff, hr₁, hr₂]

theorem writes_built (ts : List SingleCycleTransaction) (hgood : ∀ t ∈ ts, t.good = true) :
    ∃ reports, writes built ts = .ok (ofSignals (ts.map (·.m_value)) reports) := by
  induction ts using List.reverseRecOn with
  | nil => exact ⟨[], rfl⟩
  | append_singleton ts t ih =>
      obtain ⟨rs, hrs⟩ := ih fun u hu => hgood u (List.mem_append_left _ hu)
      obtain ⟨r, hr, -⟩ := write_ofSignals (ts.map (·.m_value)) rs (hgood t (by simp))
      refine ⟨rs ++ r, ?_⟩
      rw [writes] at hrs ⊢
      rw [List.foldlM_append, hrs, List.map_append]
      simp only [bind, Except.bind, List.foldlM_cons, List.foldlM_nil, hr]
      rfl

theorem isPass_controls {xs : List SingleCycleSignals} (h : xs.length < 2 ^ 32) :
    (ofVerdicts (xs.map ControlBits.verdict)).isPass = true ↔
      xs ≠ [] ∧ ∀ x ∈ xs, ControlsAgree x := by
  rw [isPass_ofVerdicts (by simpa using h)]
  simp only [List.mem_map, ControlBits.verdict]
  constructor
  · rintro ⟨⟨x, hx, hpass⟩, hfail⟩
    refine ⟨List.ne_nil_of_mem hx, ?_⟩
    intro y hy
    by_contra hne
    exact hfail ⟨y, hy, if_neg hne⟩
  · rintro ⟨hne, hall⟩
    rcases List.exists_mem_of_ne_nil xs hne with ⟨x, hx⟩
    refine ⟨⟨x, hx, if_pos (hall x hx)⟩, ?_⟩
    rintro ⟨y, hy, hfail⟩
    rw [if_pos (hall y hy)] at hfail
    exact Verdict.noConfusion hfail

theorem isPass_values {xs : List SingleCycleSignals} (h : xs.length < 2 ^ 32) :
    (ofVerdicts (xs.map DataValues.verdict)).isPass = true ↔
      (∃ x ∈ xs, x.state_1.ctl.is_valid = true) ∧
        ∀ x ∈ xs, x.state_1.ctl.is_valid = true → ValueAgrees x := by
  rw [isPass_ofVerdicts (by simpa using h)]
  simp only [List.mem_map, DataValues.verdict]
  constructor
  · rintro ⟨⟨x, hx, hpass⟩, hfail⟩
    refine ⟨⟨x, hx, ?_⟩, ?_⟩
    · by_contra hne
      rw [Bool.not_eq_true] at hne
      simp [hne] at hpass
    · intro y hy hval
      by_contra hne
      exact hfail ⟨y, hy, by simp [hval, hne]⟩
  · rintro ⟨⟨x, hx, hval⟩, hall⟩
    refine ⟨⟨x, hx, by simp [hval, hall x hx hval]⟩, ?_⟩
    rintro ⟨y, hy, hfail⟩
    cases hy' : y.state_1.ctl.is_valid <;> simp [hy'] at hfail
    exact hfail (hall y hy hy')

theorem isPass_pairs {xs : List SingleCycleSignals} (h : xs.length < 2 ^ 32) :
    (ofCodes (xs.map (controlIndex ·.stimuli.controls))).isCoverageComplete = true ↔
      ∀ a b : InputControls, [a, b] <:+: xs.map (·.stimuli.controls) := by
  rw [isCoverageComplete_ofCodes (by simpa using h)]
  constructor
  · intro hcov a b
    have hmap := (hcov (controlIndex a) (controlIndex b)).map controlsOf
    simpa [Function.comp_def] using hmap
  · intro hcov a b
    have hmap := (hcov (controlsOf a) (controlsOf b)).map controlIndex
    simpa [Function.comp_def] using hmap

theorem isPass_ofSignals {xs : List SingleCycleSignals} (rs : List Report)
    (h : xs.length < 2 ^ 32) :
    (ofSignals xs rs).isPass = true ↔
      (xs ≠ [] ∧ ∀ x ∈ xs, ControlsAgree x) ∧
      ((∃ x ∈ xs, x.state_1.ctl.is_valid = true) ∧
        ∀ x ∈ xs, x.state_1.ctl.is_valid = true → ValueAgrees x) ∧
      ∀ a b : InputControls, [a, b] <:+: xs.map (·.stimuli.controls) := by
  unfold isPass
  simp only [ofSignals, Option.any_some, Bool.and_eq_true]
  rw [← and_assoc]
  exact and_congr (and_congr (isPass_controls h) (isPass_values h)) (isPass_pairs h)

end TestBench

end PipelineBench
