import PipelineBench.Foundation.Text
import PipelineBench.Verify.Conservation

/-!
# What the trace of a run tells

Every branch of `cycle` names itself in the diagnostic string it drives. The
outputs alone then account for the data: which were taken, which have left, and
whether they were delivered or dropped.
-/

namespace PipelineBench.Trace

open Run SingleCycle Conservation

/-! ## The branch in the diagnostic string -/

/-- The branches of `cycle`. -/
inductive Branch where
  | reset
  | flush
  | stall
  | advance
  | nop
  deriving DecidableEq, Repr

def Branch.all : List Branch := [.reset, .flush, .stall, .advance, .nop]

/-- What the branch puts in front of the string it passes on. -/
def Branch.text : Branch → String
  | .reset => "RESET: "
  | .flush => "FLUSH: "
  | .stall => "STALL: "
  | .advance => "ADVANCE: "
  | .nop => "NOP: "

/-- The branch taken, in the order of the conditions. -/
def branch (inp : CycleInput) (state : CycleState) : Branch :=
  if inp.reset = false then .reset
  else if inp.is_flush then .flush
  else if state.is_stall then .stall
  else if state.is_advance then .advance
  else .nop

/-- Read a diagnostic string. -/
def readString (string : String) : Option (Branch × List Char) :=
  Text.untag (·.text.toList) Branch.all string.toList

theorem mem_all (b : Branch) : b ∈ Branch.all := by
  cases b <;> decide

theorem text_separate : Text.Separate (fun b : Branch => b.text.toList) Branch.all := by
  rw [Text.Separate]
  decide

theorem readString_text (b : Branch) (string : String) :
    readString (b.text ++ string) = some (b, string.toList) := by
  rw [readString, String.toList_append]
  exact Text.untag_tag text_separate (mem_all b) string.toList

/-- A cycle that does not throw writes the name of its branch. -/
theorem nextState_string {inp : CycleInput} {state state' : CycleState}
    (h : nextState inp state = .ok state') :
    branch inp state ≠ .stall ∧ state'.string = (branch inp state).text ++ inp.string := by
  rw [nextState] at h
  rw [branch]
  by_cases hr : inp.reset = false
  · rw [if_pos hr] at h ⊢
    obtain rfl := Except.ok.inj h
    exact ⟨Branch.noConfusion, rfl⟩
  · rw [if_neg hr] at h ⊢
    by_cases hf : inp.is_flush = true
    · rw [if_pos hf] at h ⊢
      obtain rfl := Except.ok.inj h
      exact ⟨Branch.noConfusion, rfl⟩
    · rw [if_neg hf] at h ⊢
      by_cases hs : state.is_stall = true
      · rw [if_pos hs] at h
        cases h
      · rw [if_neg hs] at h ⊢
        by_cases ha : state.is_advance = true
        · rw [if_pos ha] at h ⊢
          obtain rfl := Except.ok.inj h
          exact ⟨Branch.noConfusion, rfl⟩
        · rw [if_neg ha] at h ⊢
          obtain rfl := Except.ok.inj h
          exact ⟨Branch.noConfusion, rfl⟩

/-! ## What the outputs show -/

/-- The branch of an edge. -/
def branchOf (e : Edge MutOutput MutInput) : Branch :=
  branch (readInput e.input) (readState (settle e.input e.before))

/-- The branch that the outputs after an edge name. -/
def shownBranch (after : MutOutput) : Option Branch := (readString after.debug.string).map (·.1)

/-- The datum that the outputs after an edge show to have been taken. -/
def shownAccepted (after : MutOutput) : Option Datum :=
  if shownBranch after = some .advance ∧ after.ctl.is_valid = true then
    some (registers after).complement
  else none

/-- The datum that the outputs around an edge show to have left. -/
def shownLeft (before after : MutOutput) : Option Datum :=
  if before.ctl.is_valid = true ∧ shownBranch after ≠ some .nop then some (registers before)
  else none

/-- Whether it was dropped. -/
def shownDropped (after : MutOutput) : Prop :=
  shownBranch after = some .reset ∨ shownBranch after = some .flush

theorem complement_complement (d : Datum) : d.complement.complement = d := by
  rw [Datum.complement, Datum.complement, BitVec.not_not]

/-- The diagnostic string after an edge. -/
theorem string_after {e : Edge MutOutput MutInput} (h : edge e.before e.input = .ok e.after) :
    branchOf e ≠ .stall ∧
      readString e.after.debug.string = some (branchOf e, e.input.debug.string.toList) := by
  rw [edge, cycle] at h
  cases hnext : nextState (readInput e.input) (readState (settle e.input e.before)) with
  | error err => simp [hnext] at h
  | ok state' =>
      simp only [hnext, Except.ok.injEq] at h
      obtain ⟨hstall, hstring⟩ := nextState_string hnext
      refine ⟨hstall, ?_⟩
      have htext : e.after.debug.string = (branchOf e).text ++ e.input.debug.string := by
        rw [← h]
        exact hstring
      rw [htext, readString_text]

theorem shownBranch_after {e : Edge MutOutput MutInput} (h : edge e.before e.input = .ok e.after) :
    shownBranch e.after = some (branchOf e) := by
  rw [shownBranch, (string_after h).2]
  rfl

/-- The named branch in the terms of the specification of an edge. -/
theorem branchOf_cases (e : Edge MutOutput MutInput) (hun : Unstalled e.before) :
    (branchOf e = .reset ∧ e.input.ctl.reset = false) ∨
      (branchOf e = .flush ∧ e.input.ctl.reset = true ∧ e.input.ctl.is_flush = true) ∨
      (branchOf e = .advance ∧ Advances e.before e.input) ∨
      (branchOf e = .nop ∧ ¬ Discards e.input ∧ computeAdvance e.input e.before = false) := by
  have hstall : (readState (settle e.input e.before)).is_stall = false := hun
  have hadvance : (readState (settle e.input e.before)).is_advance =
      computeAdvance e.input e.before := rfl
  have hreset : (readInput e.input).reset = e.input.ctl.reset := rfl
  have hflush : (readInput e.input).is_flush = e.input.ctl.is_flush := rfl
  rw [branchOf, branch, hstall, hadvance, hreset, hflush, not_discards_iff, Advances]
  cases e.input.ctl.reset with
  | false => exact Or.inl ⟨rfl, rfl⟩
  | true =>
      cases e.input.ctl.is_flush with
      | true => exact Or.inr (Or.inl ⟨rfl, rfl, rfl⟩)
      | false =>
          cases computeAdvance e.input e.before with
          | true => exact Or.inr (Or.inr (Or.inl ⟨rfl, rfl, rfl, rfl⟩))
          | false => exact Or.inr (Or.inr (Or.inr ⟨rfl, ⟨rfl, rfl⟩, rfl⟩))

/-! ## The account of an edge, from the outputs -/

theorem accepted_shown {e : Edge MutOutput MutInput} (hun : Unstalled e.before)
    (h : edge e.before e.input = .ok e.after) : accepted e = shownAccepted e.after := by
  have hspec := edgeSpec_of_edge hun h
  have hvalid := hspec.is_valid
  simp only [shownAccepted, shownBranch_after h, Option.some.injEq]
  rcases branchOf_cases e hun with ⟨hb, hr⟩ | ⟨hb, hr, hf⟩ | ⟨hb, hadv⟩ | ⟨hb, hkeep, hwait⟩
  · rw [accepted, if_neg (by simp [hr]), if_neg (by simp [hb])]
  · rw [accepted, if_neg (by simp [hf]), if_neg (by simp [hb])]
  · obtain ⟨hr, hf, ha⟩ := hadv
    rw [if_neg (not_discards_iff.mpr ⟨hr, hf⟩), if_pos ha] at hvalid
    have hregs := registers_after hspec
    rw [if_pos ⟨hr, hf, ha⟩] at hregs
    rw [hregs, complement_complement, accepted, hb, hvalid]
    simp [settle, hr, hf, ha]
  · have hsettled : (settle e.input e.before).ctl.is_advance = false := hwait
    rw [accepted, if_neg (by simp [hsettled]), if_neg (by simp [hb])]

theorem left_shown {e : Edge MutOutput MutInput} (hun : Unstalled e.before)
    (h : edge e.before e.input = .ok e.after) :
    left e = shownLeft e.before e.after := by
  simp only [shownLeft, shownBranch_after h, ne_eq, Option.some.injEq, left]
  have hready : computeAdvance e.input e.before =
      (!e.before.ctl.is_valid || e.input.ctl.is_advance) := computeAdvance_of_unstalled hun
  rcases branchOf_cases e hun with ⟨hb, hr⟩ | ⟨hb, hr, hf⟩ | ⟨hb, hadv⟩ | ⟨hb, hkeep, hwait⟩
  · simp [hb, Discards, hr]
  · simp [hb, Discards, hf]
  · obtain ⟨hr, hf, ha⟩ := hadv
    rw [ha] at hready
    cases hv : e.before.ctl.is_valid with
    | false => simp
    | true =>
        -- it advances although it holds a datum, so the datum is taken
        rw [hv] at hready
        have htaken : e.input.ctl.is_advance = true := hready.symm
        simp [hb, Delivers, hr, hf, htaken]
  · rw [hwait] at hready
    cases hv : e.before.ctl.is_valid with
    | false => simp
    | true =>
        rw [hv] at hready
        have hstays : e.input.ctl.is_advance = false := hready.symm
        simp [hb, hkeep, Delivers, hstays]

/-- A datum that leaves was dropped exactly when the edge shows it. -/
theorem dropped_shown {e : Edge MutOutput MutInput} (hun : Unstalled e.before)
    (h : edge e.before e.input = .ok e.after) :
    shownDropped e.after ↔ Discards e.input := by
  rw [shownDropped, shownBranch_after h, Option.some.injEq, Option.some.injEq]
  rcases branchOf_cases e hun with ⟨hb, hr⟩ | ⟨hb, hr, hf⟩ | ⟨hb, hadv⟩ | ⟨hb, hkeep, -⟩
  · exact iff_of_true (Or.inl hb) (Or.inl hr)
  · exact iff_of_true (Or.inr hb) (Or.inr hf)
  · exact iff_of_false (by simp [hb]) (not_discards_iff.mpr ⟨hadv.1, hadv.2.1⟩)
  · exact iff_of_false (by simp [hb]) hkeep

/-! ## The account of a run, from the outputs -/

/-- **The trace accounts for the data.** In every run from a module that does not
stall, at every edge, the diagnostic string splits into the name of the branch
taken, never STALL, and the string that came in; and from the outputs around the
edge alone one reads whether a datum was accepted and which, whether one left and
which, and whether what left was dropped. -/
theorem trace_accounts (out : MutOutput) (hstall : out.ctl.is_stall = false)
    (stream : List MutInput) :
    ∃ es, history edge out stream = .ok es ∧ ∀ e ∈ es,
      branchOf e ≠ .stall ∧
      readString e.after.debug.string = some (branchOf e, e.input.debug.string.toList) ∧
      accepted e = shownAccepted e.after ∧ left e = shownLeft e.before e.after ∧
      (shownDropped e.after ↔ Discards e.input) := by
  obtain ⟨es, hrun, -, hall⟩ := edge_total.forall_edges
    (Q := fun e => Unstalled e.before ∧ edge e.before e.input = .ok e.after)
    (fun _ _ _ hs he => ⟨hs, he⟩) stream hstall
  refine ⟨es, hrun, ?_⟩
  intro e he
  obtain ⟨hun, hedge⟩ := hall e he
  obtain ⟨hbranch, hstring⟩ := string_after hedge
  exact ⟨hbranch, hstring, accepted_shown hun hedge, left_shown hun hedge,
    dropped_shown hun hedge⟩

/-- A datum is taken and then flushed. -/
theorem trace_accounts_flush :
    ∃ es, history edge initialised
        [⟨⟨true, false, false, true⟩, ⟨5⟩, ⟨1, 2, false, "FLUSH: "⟩⟩,
          ⟨⟨true, false, true, false⟩, ⟨6⟩, ⟨3, 4, false, ""⟩⟩] = .ok es ∧ ∀ e ∈ es,
      branchOf e ≠ .stall ∧
      readString e.after.debug.string = some (branchOf e, e.input.debug.string.toList) ∧
      accepted e = shownAccepted e.after ∧ left e = shownLeft e.before e.after ∧
      (shownDropped e.after ↔ Discards e.input) :=
  trace_accounts initialised rfl _

end PipelineBench.Trace
