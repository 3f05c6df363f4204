import Mathlib.Data.List.Chain

/-!
# A cell that detects changes

A cell takes over a written value only when it does not compare the same as the
current one. What is read back after each write is what was written exactly when
the comparison never confuses a value with the one before it.
-/

namespace PipelineBench.ChangeDetect

variable {α : Type*}

/-- `update current new` is what the cell holds after a write of `new`. -/
structure DetectsChanges (same : α → α → Bool) (update : α → α → α) : Prop where
  keeps : ∀ current new, same current new = true → update current new = current
  takes : ∀ current new, same current new = false → update current new = new

/-- The values read after each of a list of writes. -/
def reads (update : α → α → α) : α → List α → List α
  | _, [] => []
  | current, v :: vs => update current v :: reads update (update current v) vs

theorem detectsChanges_ite (same : α → α → Bool) :
    DetectsChanges same fun current new => if same current new then current else new where
  keeps := by
    intro current new h
    rw [if_pos h]
  takes := by
    intro current new h
    rw [h]
    rfl

namespace DetectsChanges

variable {same : α → α → Bool} {update : α → α → α}

/-- One write arrives unless the value compares the same as a different one. -/
theorem update_eq_iff (h : DetectsChanges same update) (current new : α) :
    update current new = new ↔ (same current new = true → current = new) := by
  cases hsame : same current new with
  | true =>
      rw [h.keeps current new hsame]
      exact ⟨fun heq _ => heq, fun himp => himp rfl⟩
  | false =>
      rw [h.takes current new hsame]
      exact ⟨fun _ hno => absurd hno (by decide), fun _ => rfl⟩

/-- As long as the writes arrive, the cell holds the last one. -/
theorem reads_eq_iff (h : DetectsChanges same update) (current : α) (vs : List α) :
    reads update current vs = vs ↔
      (current :: vs).IsChain fun u v => same u v = true → u = v := by
  induction vs generalizing current with
  | nil => exact iff_of_true rfl (.singleton current)
  | cons v vs ih =>
      rw [reads, List.cons.injEq, List.isChain_cons_cons, h.update_eq_iff]
      constructor
      · rintro ⟨himp, hrest⟩
        rw [(h.update_eq_iff current v).mpr himp] at hrest
        exact ⟨himp, (ih v).mp hrest⟩
      · rintro ⟨himp, hrest⟩
        rw [(h.update_eq_iff current v).mpr himp]
        exact ⟨himp, (ih v).mpr hrest⟩

end DetectsChanges

end PipelineBench.ChangeDetect
