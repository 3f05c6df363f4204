import Mathlib.Data.Fintype.BigOperators
import Mathlib.Data.List.ProdSigma
import PipelineBench.Uvm.TestBench

/-!
# What the pair counter reports

Four nested loops summarise one table of counts. Each is a fold over the list of
its items, so they agree with each other and with the observations behind the
table, for every width and every history.
-/

namespace PipelineBench.Coverage

open ScoreBoard ScoreBoard.PairTable TestBench

/-! ## Folds that pick an element -/

section Pick

variable {α : Type*}

/-- A fold that keeps one of two elements, always one below both in `r`, ends in
an element that is below all. -/
theorem foldl_pick {r : α → α → Prop} (hrefl : ∀ x, r x x)
    (htrans : ∀ x y z, r x y → r y z → r x z) {pick : α → α → α}
    (hpick : ∀ x y, pick x y = x ∨ pick x y = y) (hleft : ∀ x y, r (pick x y) x)
    (hright : ∀ x y, r (pick x y) y) (l : List α) (init : α) :
    l.foldl pick init ∈ init :: l ∧ ∀ x ∈ init :: l, r (l.foldl pick init) x := by
  induction l generalizing init with
  | nil =>
      refine ⟨List.mem_cons_self .., ?_⟩
      intro x hx
      rw [List.mem_singleton] at hx
      subst hx
      exact hrefl x
  | cons y l ih =>
      obtain ⟨hmem, hall⟩ := ih (pick init y)
      -- the fold goes on from the element picked, which is below both
      have hbelow := hall _ (List.mem_cons_self ..)
      rw [List.foldl_cons]
      constructor
      · rcases List.mem_cons.mp hmem with heq | hmem
        · rw [heq]
          rcases hpick init y with h | h
          · rw [h]
            exact List.mem_cons_self ..
          · rw [h]
            exact List.mem_cons_of_mem _ (List.mem_cons_self ..)
        · exact List.mem_cons_of_mem _ (List.mem_cons_of_mem _ hmem)
      · intro x hx
        rcases List.mem_cons.mp hx with rfl | hx
        · exact htrans _ _ _ hbelow (hleft x y)
        · rcases List.mem_cons.mp hx with rfl | hx
          · exact htrans _ _ _ hbelow (hright init x)
          · exact hall x (List.mem_cons_of_mem _ hx)

/-- A wrapping counter of the elements that pass a test. -/
theorem foldl_count (p : α → Bool) (l : List α) (init : Unsigned) :
    l.foldl (fun count x => count + if p x then 0 else 1) init =
      init + BitVec.ofNat 32 (l.countP fun x => !p x) := by
  induction l generalizing init with
  | nil => exact (BitVec.add_zero _).symm
  | cons x l ih =>
      rw [List.foldl_cons, ih, List.countP_cons, BitVec.ofNat_add, BitVec.add_assoc]
      cases p x with
      | true => simp
      | false => simp [BitVec.add_comm]

end Pick

/-! ## The loops as folds -/

section Loops

variable {N : ℕ}

/-- All indices, row by row. -/
def indices (N : ℕ) : List (Fin (2 ^ N) × Fin (2 ^ N)) :=
  List.finRange (2 ^ N) ×ˢ List.finRange (2 ^ N)

theorem mem_indices (x : Fin (2 ^ N) × Fin (2 ^ N)) : x ∈ indices N := by
  unfold indices
  obtain ⟨a, b⟩ := x
  exact List.mem_product.mpr ⟨List.mem_finRange a, List.mem_finRange b⟩

theorem nodup_indices : (indices N).Nodup :=
  (List.nodup_finRange _).product (List.nodup_finRange _)

theorem forItems_eq {β : Type} (t : PairTable N) (init : β) (f : β → Unsigned → β) :
    t.forItems init f = ((indices N).map fun x => t.check_array x.1 x.2).foldl f init := by
  have hindices : indices N =
      (List.finRange (2 ^ N)).flatMap fun row => (List.finRange (2 ^ N)).map (Prod.mk row) := rfl
  unfold forItems
  rw [hindices, List.foldl_map, List.foldl_flatMap]
  congr 1
  funext acc row
  rw [List.foldl_map]

theorem nPairs_toNat (hN : N ≤ 15) : (nPairs N).toNat = 2 ^ N * 2 ^ N := by
  have hpow : 2 ^ N ≤ 2 ^ 15 := Nat.pow_le_pow_right (by decide) hN
  have hbits : (nBitCombinations N).toNat = 2 ^ N := by
    unfold nBitCombinations
    rw [BitVec.toNat_shiftLeft, Nat.shiftLeft_eq]
    show 1 * 2 ^ N % 2 ^ 32 = 2 ^ N
    omega
  have hsq : 2 ^ N * 2 ^ N ≤ 2 ^ 15 * 2 ^ 15 := Nat.mul_le_mul hpow hpow
  unfold nPairs
  rw [BitVec.toNat_mul, hbits, Nat.mod_eq_of_lt (by omega)]

/-- The pairs a table has counted at all. -/
def covered (t : PairTable N) : Finset (Fin (2 ^ N) × Fin (2 ^ N)) :=
  Finset.univ.filter fun x => 0 < t.check_array x.1 x.2

theorem card_covered_le (t : PairTable N) : (covered t).card ≤ 2 ^ N * 2 ^ N := by
  have hle := Finset.card_le_univ (covered t)
  rwa [Fintype.card_prod, Fintype.card_fin] at hle

theorem coverageObservations_toNat (t : PairTable N) (hN : N ≤ 15) :
    t.coverageObservations.toNat = (covered t).card := by
  have hcount : ((indices N).map fun x => t.check_array x.1 x.2).countP (fun item => !(item == 0)) =
      (covered t).card := by
    rw [List.countP_map, List.countP_eq_length_filter,
      ← List.toFinset_card_of_nodup (nodup_indices.filter _)]
    congr 1
    ext x
    simp [covered, mem_indices, BitVec.pos_iff_ne_zero]
  have hle := card_covered_le t
  rw [← nPairs_toNat hN] at hle
  have hlt := (nPairs N).isLt
  unfold coverageObservations
  rw [forItems_eq, foldl_count, hcount, BitVec.toNat_add, BitVec.toNat_ofNat]
  show (0 + _) % 2 ^ 32 = _
  omega

/-- Full coverage, by the number of pairs. -/
theorem card_covered_iff (t : PairTable N) :
    (covered t).card = 2 ^ N * 2 ^ N ↔ ∀ a b, 0 < t.check_array a b := by
  have hcard : Fintype.card (Fin (2 ^ N) × Fin (2 ^ N)) = 2 ^ N * 2 ^ N := by
    rw [Fintype.card_prod, Fintype.card_fin]
  rw [← hcard, Finset.card_eq_iff_eq_univ, covered, Finset.filter_eq_self]
  constructor
  · intro h a b
    exact h (a, b) (Finset.mem_univ _)
  · intro h x _
    exact h x.1 x.2

/-- A loop that picks items starts from the first one and ends in an extreme one. -/
theorem forItems_pick (t : PairTable N) {r : Unsigned → Unsigned → Prop} (hrefl : ∀ x, r x x)
    (htrans : ∀ x y z, r x y → r y z → r x z) {pick : Unsigned → Unsigned → Unsigned}
    (hpick : ∀ x y, pick x y = x ∨ pick x y = y) (hleft : ∀ x y, r (pick x y) x)
    (hright : ∀ x y, r (pick x y) y) :
    (∃ a b, t.forItems t.firstItem pick = t.check_array a b) ∧
      ∀ a b, r (t.forItems t.firstItem pick) (t.check_array a b) := by
  rcases foldl_pick hrefl htrans hpick hleft hright
    ((indices N).map fun x => t.check_array x.1 x.2) t.firstItem with ⟨hmem, hall⟩
  rw [forItems_eq]
  constructor
  · rcases List.mem_cons.mp hmem with hfirst | hitem
    · exact ⟨_, _, hfirst⟩
    · obtain ⟨x, -, hx⟩ := List.mem_map.mp hitem
      exact ⟨x.1, x.2, hx.symm⟩
  · intro a b
    apply hall
    exact List.mem_cons_of_mem _ (List.mem_map.mpr ⟨(a, b), mem_indices _, rfl⟩)

/-- The minimum is attained, and is below every item. -/
theorem minimumObservation_spec (t : PairTable N) :
    (∃ a b, t.minimumObservation = t.check_array a b) ∧
      ∀ a b, t.minimumObservation ≤ t.check_array a b := by
  apply forItems_pick t (r := fun x y => x ≤ y) BitVec.le_refl fun _ _ _ => BitVec.le_trans
  · intro x y
    exact (ite_eq_or_eq _ y x).symm
  · intro x y
    split <;> bv_omega
  · intro x y
    split <;> bv_omega

/-- So is the maximum, and above. -/
theorem maximumObservation_spec (t : PairTable N) :
    (∃ a b, t.maximumObservation = t.check_array a b) ∧
      ∀ a b, t.check_array a b ≤ t.maximumObservation := by
  apply forItems_pick t (r := fun x y => y ≤ x) BitVec.le_refl
    fun _ _ _ hxy hyz => BitVec.le_trans hyz hxy
  · intro x y
    exact (ite_eq_or_eq _ y x).symm
  · intro x y
    split <;> bv_omega
  · intro x y
    split <;> bv_omega

theorem complete_iff_observations (t : PairTable N) (hN : N ≤ 15) :
    t.isCoverageComplete = true ↔ t.coverageObservations = nPairs N := by
  rw [← BitVec.toNat_inj, coverageObservations_toNat t hN, nPairs_toNat hN, card_covered_iff,
    isCoverageComplete_iff]
  rfl

theorem complete_iff_minimum (t : PairTable N) :
    t.isCoverageComplete = true ↔ 0 < t.minimumObservation := by
  obtain ⟨⟨a, b, hmin⟩, hle⟩ := minimumObservation_spec t
  rw [isCoverageComplete_iff]
  constructor
  · intro hall
    rw [hmin]
    exact hall a b
  · intro hpos a b
    exact Nat.lt_of_lt_of_le hpos (hle a b)

/-- The word printed, against the verdict. -/
theorem complete_iff_printed (t : PairTable N) (hN : N ≤ 15) (title : String) :
    t.isCoverageComplete = true ↔ (t.reportSummary title).completion = "complete" := by
  have hcompletion : (t.reportSummary title).completion =
      if t.coverageObservations != nPairs N then "INCOMPLETE" else "complete" := rfl
  rw [complete_iff_observations t hN, hcompletion]
  by_cases hall : t.coverageObservations = nPairs N
  · simp [hall]
  · simp [hall]

end Loops

/-! ## From the observations -/

section History

variable {N : ℕ}

/-- `observe` of one code after the other. -/
def observes (t : PairTable N) (codes : List (Fin (2 ^ N))) : Except Abort (PairTable N) :=
  (codes.map fun code => BitVec.ofNat 32 code.val).foldlM PairTable.observe t

theorem observes_fresh (hN : N ≤ 15) (codes : List (Fin (2 ^ N))) :
    observes (.fresh N) codes = .ok (ofCodes codes) := by
  have hpow : 2 ^ N ≤ 2 ^ 15 := Nat.pow_le_pow_right (by decide) hN
  unfold observes
  induction codes using List.reverseRecOn with
  | nil => rfl
  | append_singleton codes code ih =>
      have hbits : (BitVec.ofNat 32 code.val).toNat = code.val := by
        have hlt := code.isLt
        rw [BitVec.toNat_ofNat, Nat.mod_eq_of_lt (by omega)]
      have hobs := observe_ofCodes codes code hbits
      rw [List.map_append, List.foldlM_append, ih]
      show List.foldlM observe (ofCodes codes) [BitVec.ofNat 32 code.val] = _
      rw [List.foldlM_cons, hobs]
      rfl

theorem sum_counts (codes : List (Fin (2 ^ N))) :
    ∑ a, ∑ b, codes.consecutivePairs.count (a, b) = codes.length - 1 := by
  have hprod := Fintype.sum_prod_type fun x : Fin (2 ^ N) × Fin (2 ^ N) =>
    codes.consecutivePairs.count x
  rw [← hprod, ← Consecutive.length_pairs codes]
  generalize codes.consecutivePairs = pairs
  induction pairs with
  | nil => simp
  | cons x pairs ih => simp [List.count_cons, Finset.sum_add_distrib, ih]

theorem covered_ofCodes {codes : List (Fin (2 ^ N))} (hlen : codes.length < 2 ^ 32) :
    covered (ofCodes codes) = codes.consecutivePairs.toFinset := by
  ext x
  rw [covered, Finset.mem_filter, List.mem_toFinset, BitVec.lt_def, check_array_toNat hlen]
  constructor
  · rintro ⟨-, hpos⟩
    exact List.count_pos_iff.mp hpos
  · intro hmem
    exact ⟨Finset.mem_univ x, List.count_pos_iff.mpr hmem⟩

/-- The table and its summaries are those of the observations. -/
structure Reports (codes : List (Fin (2 ^ N))) (t : PairTable N) : Prop where
  counts : ∀ a b, (t.check_array a b).toNat = codes.consecutivePairs.count (a, b)
  total : ∑ a, ∑ b, (t.check_array a b).toNat = codes.length - 1
  distinct : t.coverageObservations.toNat = codes.consecutivePairs.toFinset.card
  complete_iff_observations : t.isCoverageComplete = true ↔ t.coverageObservations = nPairs N
  complete_iff_minimum : t.isCoverageComplete = true ↔ 0 < t.minimumObservation
  complete_iff_printed : ∀ title,
    t.isCoverageComplete = true ↔ (t.reportSummary title).completion = "complete"
  minimum_attained : ∃ a b, t.minimumObservation = t.check_array a b
  minimum_le : ∀ a b, t.minimumObservation ≤ t.check_array a b
  maximum_attained : ∃ a b, t.maximumObservation = t.check_array a b
  le_maximum : ∀ a b, t.check_array a b ≤ t.maximumObservation

/-- **The pair counter.** For every width up to fifteen bits and every list of
observations, the table counts the neighbours of the list, and what is printed
of it agrees with the verdict. -/
theorem pair_counter_reports (hN : N ≤ 15) (codes : List (Fin (2 ^ N)))
    (hlen : codes.length < 2 ^ 32) :
    ∃ t, observes (.fresh N) codes = .ok t ∧ Reports codes t := by
  refine ⟨ofCodes codes, observes_fresh hN codes, ?_⟩
  obtain ⟨hmin, hminle⟩ := minimumObservation_spec (ofCodes codes)
  obtain ⟨hmax, hlemax⟩ := maximumObservation_spec (ofCodes codes)
  have hcounts := check_array_toNat hlen
  refine ⟨hcounts, ?_, ?_, complete_iff_observations _ hN, complete_iff_minimum _,
    complete_iff_printed _ hN, hmin, hminle, hmax, hlemax⟩
  · simp only [hcounts]
    exact sum_counts codes
  · rw [coverageObservations_toNat _ hN, covered_ofCodes hlen]

/-- Two bits, a code that follows itself, and one that comes back. -/
theorem pair_counter_reports_two :
    ∃ t : PairTable 2, observes (.fresh 2) [3, 3, 0, 3, 3] = .ok t ∧ Reports [3, 3, 0, 3, 3] t :=
  pair_counter_reports (by decide) _ (by decide)

end History

end PipelineBench.Coverage
