import Mathlib.Algebra.Field.Rat
import Mathlib.Tactic.NormNum
import PipelineBench.Foundation.BitFields
import PipelineBench.Uvm.Request

/-!
# The weighted random controls are independent

`randomise` reads five disjoint fields of one random word. How many words give
an assignment of the control bits is then a product, one weight a bit.
-/

namespace PipelineBench.Request

open BitFields

/-- The control bits of a request. -/
def RandomWeighted.controls (r : RandomWeighted) : InputControls :=
  ⟨r.m_reset, r.m_is_advance, r.m_is_error, r.m_is_flush, r.m_is_valid⟩

/-- The generator, but `w` comes next. -/
def Generator.withNext (g : Generator) (w : BitVec 64) : Generator :=
  { g with stream := Function.update g.stream g.drawn w }

/-- The control bits a random word gives. -/
def drawnControls (w : BitVec 64) : InputControls where
  reset := field 0 8 w.toNat != 0
  is_advance := field 8 2 w.toNat != 0
  is_error := field 16 10 w.toNat == 0
  is_flush := field 32 6 w.toNat == 0
  is_valid := field 40 2 w.toNat != 0

/-! ## The fields -/

theorem controls_randomise (r : RandomWeighted) (g : Generator) :
    (r.randomise g).1.controls = drawnControls (g.stream g.drawn) := by
  have hreset : (0x0000000000FF : BitVec 64).toNat = (2 ^ 8 - 1) * 2 ^ 0 := by decide
  have hadvance : (0x000000000300 : BitVec 64).toNat = (2 ^ 2 - 1) * 2 ^ 8 := by decide
  have herror : (0x000003FF0000 : BitVec 64).toNat = (2 ^ 10 - 1) * 2 ^ 16 := by decide
  have hflush : (0x003F00000000 : BitVec 64).toNat = (2 ^ 6 - 1) * 2 ^ 32 := by decide
  have hvalid : (0x030000000000 : BitVec 64).toNat = (2 ^ 2 - 1) * 2 ^ 40 := by decide
  rw [drawnControls, ← and_mask_bne_zero hreset, ← and_mask_bne_zero hadvance,
    ← and_mask_beq_zero herror, ← and_mask_beq_zero hflush, ← and_mask_bne_zero hvalid]
  rfl

/-- The fields of a random word that gives `a`, lowest first. -/
def fields (a : InputControls) : List Field :=
  [.isSet 8 a.reset, .isSet 2 a.is_advance, .free 6, .isSet 10 (!a.is_error), .free 6,
    .isSet 6 (!a.is_flush), .free 2, .isSet 2 a.is_valid, .free 22]

theorem drawnControls_eq_iff (w : BitVec 64) (a : InputControls) :
    drawnControls w = a ↔ passes 0 (fields a) w.toNat = true := by
  have hnone : ∀ (x : ℕ) (b : Bool), ((x != 0) = !b) ↔ (x == 0) = b := by
    intro x b
    rw [bne, Bool.not_inj_iff]
  obtain ⟨reset, is_advance, is_error, is_flush, is_valid⟩ := a
  simp only [drawnControls, passes, fields, Field.isSet, Field.free, InputControls.mk.injEq,
    Bool.and_eq_true, beq_iff_eq, true_and, and_true, Nat.reduceAdd, hnone]

/-! ## The weights -/

/-- A bit that is set in the part `p` of all words. -/
def bitWeight (p : ℚ) (b : Bool) : ℚ := if b then p else 1 - p

/-- The documented weights; `reset` is low active. -/
def weight (a : InputControls) : ℚ :=
  bitWeight (255 / 256) a.reset * bitWeight (3 / 4) a.is_advance *
    bitWeight (1 / 1024) a.is_error * bitWeight (1 / 64) a.is_flush * bitWeight (3 / 4) a.is_valid

theorem bitWeight_not (p : ℚ) (b : Bool) : bitWeight (1 - p) (!b) = bitWeight p b := by
  cases b with
  | false => rfl
  | true => exact sub_sub_cancel 1 p

theorem share_isSet (width : ℕ) (b : Bool) :
    (Field.isSet width b).share = bitWeight (1 - 1 / 2 ^ width) b := by
  rw [Field.share_isSet]
  cases b with
  | false => exact (sub_sub_cancel 1 _).symm
  | true => rfl

theorem prod_share_fields (a : InputControls) : ((fields a).map Field.share).prod = weight a := by
  have h8 : (1 - 1 / 2 ^ 8 : ℚ) = 255 / 256 := by norm_num
  have h2 : (1 - 1 / 2 ^ 2 : ℚ) = 3 / 4 := by norm_num
  have h10 : (1 / 2 ^ 10 : ℚ) = 1 / 1024 := by norm_num
  have h6 : (1 / 2 ^ 6 : ℚ) = 1 / 64 := by norm_num
  simp only [fields, List.map_cons, List.map_nil, List.prod_cons, List.prod_nil, share_isSet,
    Field.share_free, h8, h2, h10, h6, bitWeight_not, one_mul, mul_one, weight, mul_assoc]

theorem card_drawnControls (a : InputControls) :
    (Nat.card {w : BitVec 64 // drawnControls w = a} : ℚ) = 2 ^ 64 * weight a := by
  have hwidth : width (fields a) = 64 := rfl
  rw [← prod_share_fields, ← card_passes hwidth]
  congr 1
  exact Nat.card_congr (Equiv.subtypeEquivRight fun w => drawnControls_eq_iff w a)

/-! ## Streams -/

/-- Consecutive calls of `randomise`, one on each request. -/
def randomiseEach : List RandomWeighted → Generator → List RandomWeighted
  | [], _ => []
  | r :: rs, g => (r.randomise g).1 :: randomiseEach rs (r.randomise g).2

/-- A random word that gives `a`. -/
def wordFor (a : InputControls) : BitVec 64 :=
  (if a.reset then 0x000000000001 else 0) ||| (if a.is_advance then 0x000000000100 else 0) |||
    (if a.is_error then 0 else 0x000000010000) ||| (if a.is_flush then 0 else 0x000100000000) |||
    (if a.is_valid then 0x010000000000 else 0)

theorem drawnControls_wordFor (a : InputControls) : drawnControls (wordFor a) = a := by
  obtain ⟨reset, is_advance, is_error, is_flush, is_valid⟩ := a
  revert reset is_advance is_error is_flush is_valid
  decide

/-- Every call draws three words, the first of which decides. -/
theorem map_controls_randomiseEach {stream : ℕ → BitVec 64}
    (calls : List (RandomWeighted × InputControls)) (drawn : ℕ) :
    (∀ k a, (calls.map Prod.snd)[k]? = some a → stream (drawn + 3 * k) = wordFor a) →
      (randomiseEach (calls.map Prod.fst) ⟨stream, drawn⟩).map RandomWeighted.controls =
        calls.map Prod.snd := by
  induction calls generalizing drawn with
  | nil => exact fun _ => rfl
  | cons call calls ih =>
      intro hstream
      have hfirst : (call.1.randomise ⟨stream, drawn⟩).1.controls = call.2 := by
        have hword : stream drawn = wordFor call.2 := hstream 0 call.2 rfl
        rw [controls_randomise]
        show drawnControls (stream drawn) = call.2
        rw [hword, drawnControls_wordFor]
      have hlater : ∀ k a, (calls.map Prod.snd)[k]? = some a →
          stream (drawn + 3 + 3 * k) = wordFor a := by
        intro k a ha
        have hplace : drawn + 3 + 3 * k = drawn + 3 * (k + 1) := by omega
        rw [hplace]
        exact hstream (k + 1) a ha
      rw [List.map_cons, randomiseEach, List.map_cons, hfirst, List.map_cons]
      exact congrArg _ (ih (drawn + 3) hlater)

/-! ## The whole statement -/

/-- **The controls are independent and have the stated weights.** Of the words
that may come next, each assignment gets its share; and any list of assignments
comes out of some stream. -/
theorem random_controls_independent :
    (∀ (r : RandomWeighted) (g : Generator) (a : InputControls),
      (Nat.card {w : BitVec 64 // (r.randomise (g.withNext w)).1.controls = a} : ℚ) =
        2 ^ 64 * weight a) ∧
    (∀ (r : RandomWeighted) (g : Generator) (a : InputControls),
      ∃ w, (r.randomise (g.withNext w)).1.controls = a) ∧
    ∀ (calls : List (RandomWeighted × InputControls)) (drawn : ℕ), ∃ stream : ℕ → BitVec 64,
      (randomiseEach (calls.map Prod.fst) ⟨stream, drawn⟩).map RandomWeighted.controls =
        calls.map Prod.snd := by
  have hnext : ∀ (r : RandomWeighted) (g : Generator) (w : BitVec 64),
      (r.randomise (g.withNext w)).1.controls = drawnControls w := by
    intro r g w
    rw [controls_randomise]
    show drawnControls (Function.update g.stream g.drawn w g.drawn) = _
    rw [Function.update_self]
  refine ⟨?_, ?_, ?_⟩
  · intro r g a
    rw [← card_drawnControls]
    simp only [hnext]
  · intro r g a
    exact ⟨wordFor a, (hnext r g _).trans (drawnControls_wordFor a)⟩
  · intro calls drawn
    refine ⟨fun i => ((calls.map Prod.snd)[(i - drawn) / 3]?).elim 0 wordFor, ?_⟩
    apply map_controls_randomiseEach
    intro k a ha
    have hk : (drawn + 3 * k - drawn) / 3 = k := by omega
    simp only [hk, ha, Option.elim_some]

end PipelineBench.Request
