import Mathlib.Data.Fintype.Prod
import PipelineBench.Verify.AnyVerdict

/-!
# How long a test must be

A clock shows one pair of control combinations, and a held input always the same
one. The 1024 pairs bound from below what a successful test takes, in clocks and
in items.
-/

namespace PipelineBench.TestLength

open ScoreBoard Sequence UvmTest Program EndToEnd AnyModule

/-- Fewer than 1024 places do not hold all the pairs. -/
theorem pairs_le {f : ℕ → InputControls × InputControls} {n : ℕ}
    (h : ∀ a b, ∃ k < n, f k = (a, b)) : 1024 ≤ n := by
  have hsurj : Function.Surjective
      fun k : Fin n => (controlIndex (f k).1, controlIndex (f k).2) := by
    rintro ⟨a, b⟩
    obtain ⟨k, hk, hf⟩ := h (controlsOf a) (controlsOf b)
    refine ⟨⟨k, hk⟩, ?_⟩
    simp only [hf, controlIndex_controlsOf]
  have hcard := Fintype.card_le_of_surjective _ hsurj
  rw [Fintype.card_prod, Fintype.card_fin, Fintype.card_fin] at hcard
  exact hcard

/-- The pair of control combinations that begins at clock `k`. -/
def pairAt (driven : List MutInput) (k : ℕ) : InputControls × InputControls :=
  (inputControls (Bench.inputAt driven k), inputControls (Bench.inputAt driven (k + 1)))

theorem clocks_of_covers {driven : List MutInput} {clocks : ℕ} (h : Covers driven clocks) :
    1026 ≤ clocks := by
  have hpairs : 1024 ≤ clocks - 2 := by
    apply pairs_le (f := pairAt driven)
    intro a b
    obtain ⟨k, hk, ha, hb⟩ := h a b
    exact ⟨k, by omega, Prod.ext ha hb⟩
  omega

/-- While nothing has been driven, and once the last item is held, every clock
shows the same pair, so the first and the last of them stand for the others. -/
theorem pairAt_near (idle : ℕ) (items : List Request) (k : ℕ) :
    ∃ j < items.length + 2,
      pairAt (drivenInputs idle items) k = pairAt (drivenInputs idle items) (idle - 2 + j) := by
  have hheld : ∀ i, idle + items.length ≤ i + 1 →
      Bench.inputAt (drivenInputs idle items) i =
        (drivenInputs idle items).getLast?.getD .powerUp := by
    intro i hi
    apply Bench.inputAt_of_length_le
    rw [length_drivenInputs]
    exact hi
  rcases Nat.lt_or_ge k (idle - 2) with hearly | hlate
  · -- nothing driven yet: the first pair looked at is the same
    refine ⟨0, by omega, ?_⟩
    rw [pairAt, pairAt, inputAt_idle (Or.inl (by omega)), inputAt_idle (Or.inl (by omega)),
      inputAt_idle (Or.inl (by omega)), inputAt_idle (Or.inl (by omega))]
  · rcases Nat.lt_or_ge k (idle - 2 + (items.length + 2)) with hnear | hfar
    · exact ⟨k - (idle - 2), by omega, by rw [Nat.add_sub_cancel' hlate]⟩
    · -- the last item is held: the last pair looked at is the same
      refine ⟨items.length + 1, by omega, ?_⟩
      rw [pairAt, pairAt, hheld k (by omega), hheld (k + 1) (by omega),
        hheld (idle - 2 + (items.length + 1)) (by omega),
        hheld (idle - 2 + (items.length + 1) + 1) (by omega)]

theorem items_of_covers {idle clocks : ℕ} {items : List Request}
    (h : Covers (drivenInputs idle items) clocks) : 1022 ≤ items.length := by
  have hpairs : 1024 ≤ items.length + 2 := by
    apply pairs_le (f := fun j => pairAt (drivenInputs idle items) (idle - 2 + j))
    intro a b
    obtain ⟨k, -, ha, hb⟩ := h a b
    obtain ⟨j, hj, heq⟩ := pairAt_near idle items k
    exact ⟨j, hj, heq.symm.trans (Prod.ext ha hb)⟩
  omega

/-! ## The whole test -/

/-- **What success takes.** Whatever the sequences, the random numbers and the
timing, a test whose run phase ends of its own takes at least 1026 clocks and at
least 1022 items to return success, and returns test failure when it has fewer of
either. -/
theorem success_takes (beyond : ℕ → Char) (g : Request.Generator)
    (signals : Transaction.SingleCycleSignals) (sequences : List TestSequence)
    (hidle : ∀ s ∈ sequences, s.m_spinning = false) :
    ∃ items, startAll beyond g sequences = .ok items ∧
      items.length = (sequences.flatMap (·.doBody beyond)).length ∧
      ∀ idle clocks, Finishes idle items clocks →
        (UvmTest.scMain beyond g signals sequences idle clocks =
            some UvmReturnCode.success.toInt → 1026 ≤ clocks ∧ 1022 ≤ items.length) ∧
        (clocks < 1026 ∨ items.length < 1022 →
          UvmTest.scMain beyond g signals sequences idle clocks =
            some UvmReturnCode.testFail.toInt) := by
  rcases startAll_ok beyond g hidle with ⟨items, hitems⟩
  refine ⟨items, hitems, length_of_startAll hidle hitems, ?_⟩
  intro idle clocks hends
  obtain ⟨hsuccess, hfail⟩ := scMain_iff beyond g signals hitems idle hends.lt
  have htakes : Covers (drivenInputs idle items) clocks → 1026 ≤ clocks ∧ 1022 ≤ items.length :=
    fun hcover => ⟨clocks_of_covers hcover, items_of_covers hcover⟩
  refine ⟨fun hcode => htakes (hsuccess.mp hcode), ?_⟩
  intro hshort
  apply hfail.mpr
  intro hcover
  obtain ⟨hclocks, hitems⟩ := htakes hcover
  rcases hshort with hfew | hfew
  · exact absurd hclocks (Nat.not_le.mpr hfew)
  · exact absurd hitems (Nat.not_le.mpr hfew)

/-- One iteration of the pair sequence, and one of the flush sequence. -/
theorem success_takes_pairs :
    (1026 ≤ 2051 ∧
      1022 ≤ ([TestSequence.make .allControlPairs 1].flatMap (·.doBody fun _ => '?')).length) ∧
    UvmTest.scMain (fun _ => '?') ⟨fun _ => 0, 0⟩ .ugly [.make .flushWAdvanceNeverAdvances 1] 1
      2051 = some UvmReturnCode.testFail.toInt := by
  constructor
  · obtain ⟨items, hitems, hlen, htakes⟩ :=
      success_takes (fun _ => '?') ⟨fun _ => 0, 0⟩ .ugly _ (make_idle .allControlPairs 1)
    have hcount := length_of_make hitems
    rw [length_doBody] at hcount
    have hends : Finishes 1 items 2051 := ⟨hcount ▸ by decide, by decide⟩
    have hcover := covers_of_pairs (fun _ => '?') ⟨fun _ => 0, 0⟩ (List.mem_singleton.mpr rfl)
      rfl (by decide) (make_idle _ _) hitems hends.consumed
    rw [← hlen]
    exact (htakes 1 2051 hends).1 ((scMain_iff _ _ _ hitems 1 hends.lt).1.mpr hcover)
  · obtain ⟨items, hitems, -, htakes⟩ :=
      success_takes (fun _ => '?') ⟨fun _ => 0, 0⟩ .ugly _ (make_idle .flushWAdvanceNeverAdvances 1)
    have hlen := length_of_make hitems
    rw [length_doBody] at hlen
    have hends : Finishes 1 items 2051 := ⟨hlen ▸ by decide, by decide⟩
    exact (htakes 1 2051 hends).2 (Or.inr (hlen ▸ by decide))

end PipelineBench.TestLength
