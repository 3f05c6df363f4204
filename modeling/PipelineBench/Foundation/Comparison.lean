import Mathlib.Data.Prod.Lex
import Mathlib.Data.Set.Basic
import Mathlib.Tactic.Common

/-!
# Three-way comparisons

A comparison that may leave two values unordered, next to a separate equality
test, and the laws that code using the derived operators takes for granted. They
hold wherever both are read off a key.
-/

namespace PipelineBench.Comparison

variable {α β : Type*}

/-- `std::partial_ordering`. -/
inductive PartialOrdering where
  | less
  | equivalent
  | greater
  | unordered
  deriving DecidableEq, Repr

/-- The answer for the operands exchanged. -/
def PartialOrdering.reverse : PartialOrdering → PartialOrdering
  | .less => .greater
  | .equivalent => .equivalent
  | .greater => .less
  | .unordered => .unordered

theorem PartialOrdering.reverse_eq_unordered {o : PartialOrdering} :
    o.reverse = .unordered ↔ o = .unordered := by
  cases o <;> simp [reverse]

/-- A comparison that goes on only where the first one found no difference. -/
def PartialOrdering.andThen : PartialOrdering → PartialOrdering → PartialOrdering
  | .equivalent, next => next
  | first, _ => first

section Keys

variable [LinearOrder β]

/-- The comparison of two keys, none of them unordered. -/
def ofKeys (x y : β) : PartialOrdering :=
  if x < y then .less else if y < x then .greater else .equivalent

theorem ofKeys_ne_unordered (x y : β) : ofKeys x y ≠ .unordered := by
  unfold ofKeys
  split
  · exact PartialOrdering.noConfusion
  · split <;> exact PartialOrdering.noConfusion

theorem ofKeys_less {x y : β} : ofKeys x y = .less ↔ x < y := by
  unfold ofKeys
  by_cases hxy : x < y
  · rw [if_pos hxy]
    exact iff_of_true rfl hxy
  · rw [if_neg hxy]
    apply iff_of_false ?_ hxy
    split <;> exact PartialOrdering.noConfusion

theorem ofKeys_equivalent {x y : β} : ofKeys x y = .equivalent ↔ x = y := by
  unfold ofKeys
  rcases lt_trichotomy x y with hlt | rfl | hgt
  · rw [if_pos hlt]
    exact iff_of_false PartialOrdering.noConfusion hlt.ne
  · rw [if_neg (lt_irrefl x), if_neg (lt_irrefl x)]
    exact iff_of_true rfl rfl
  · rw [if_neg hgt.not_gt, if_pos hgt]
    exact iff_of_false PartialOrdering.noConfusion hgt.ne'

theorem ofKeys_reverse (x y : β) : ofKeys y x = (ofKeys x y).reverse := by
  unfold ofKeys
  rcases lt_trichotomy x y with hlt | rfl | hgt
  · rw [if_pos hlt, if_neg hlt.not_gt, if_pos hlt]
    rfl
  · rw [if_neg (lt_irrefl x), if_neg (lt_irrefl x)]
    rfl
  · rw [if_pos hgt, if_neg hgt.not_gt, if_pos hgt]
    rfl

/-- One key and then another is the lexicographic key. -/
theorem ofKeys_andThen {γ : Type*} [LinearOrder γ] (x y : β) (u v : γ) :
    (ofKeys x y).andThen (ofKeys u v) = ofKeys (toLex (x, u)) (toLex (y, v)) := by
  unfold ofKeys
  rcases lt_trichotomy x y with hlt | rfl | hgt
  · rw [if_pos hlt, if_pos (Prod.Lex.toLex_lt_toLex.mpr (Or.inl hlt))]
    rfl
  · have hsame : ∀ u v : γ, toLex (x, u) < toLex (x, v) ↔ u < v := by
      intro u v
      rw [Prod.Lex.toLex_lt_toLex]
      simp
    rw [if_neg (lt_irrefl x), if_neg (lt_irrefl x)]
    simp only [hsame]
    rfl
  · have hno : ¬ toLex (x, u) < toLex (y, v) :=
      (Prod.Lex.toLex_lt_toLex.mpr (Or.inl hgt)).not_gt
    rw [if_neg hgt.not_gt, if_pos hgt, if_neg hno,
      if_pos (Prod.Lex.toLex_lt_toLex.mpr (Or.inl hgt))]
    rfl

end Keys

/-- The laws of a comparison and an equality test, among the values of a set. -/
structure LawfulOn (compare : α → α → PartialOrdering) (same : α → α → Bool) (S : Set α) :
    Prop where
  reverse : ∀ a ∈ S, ∀ b ∈ S, compare b a = (compare a b).reverse
  less_trans : ∀ a ∈ S, ∀ b ∈ S, ∀ c ∈ S,
    compare a b = .less → compare b c = .less → compare a c = .less
  refl : ∀ a ∈ S, same a a = true
  symm : ∀ a ∈ S, ∀ b ∈ S, same a b = true → same b a = true
  trans : ∀ a ∈ S, ∀ b ∈ S, ∀ c ∈ S, same a b = true → same b c = true → same a c = true

/-- Where a key decides both, the laws hold. -/
theorem lawfulOn_of_key [LinearOrder β] {compare : α → α → PartialOrdering}
    {same : α → α → Bool} {S : Set α} (key : α → β)
    (hcompare : ∀ a ∈ S, ∀ b ∈ S, compare a b = ofKeys (key a) (key b))
    (hsame : ∀ a ∈ S, ∀ b ∈ S, same a b = true ↔ key a = key b) : LawfulOn compare same S where
  reverse := by
    intro a ha b hb
    rw [hcompare a ha b hb, hcompare b hb a ha]
    exact ofKeys_reverse _ _
  less_trans := by
    intro a ha b hb c hc
    rw [hcompare a ha b hb, hcompare b hb c hc, hcompare a ha c hc, ofKeys_less, ofKeys_less,
      ofKeys_less]
    exact lt_trans
  refl := by
    intro a ha
    rw [hsame a ha a ha]
  symm := by
    intro a ha b hb
    rw [hsame a ha b hb, hsame b hb a ha]
    exact Eq.symm
  trans := by
    intro a ha b hb c hc
    rw [hsame a ha b hb, hsame b hb c hc, hsame a ha c hc]
    exact Eq.trans

end PipelineBench.Comparison
