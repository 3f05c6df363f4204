import PipelineBench.Model.SingleCycle
import PipelineBench.Uvm.Driver
import PipelineBench.Uvm.Sequence

/-!
# What a hold request does

`request.h` documents `hold_t` as a request that holds the state of the module.
The driver asserts `is_advance` and clears `is_valid` for it, and that releases
the datum: the next stage is told to take it and nothing replaces it.
-/

namespace PipelineBench.Hold

open PipelineBench.Run PipelineBench.SingleCycle PipelineBench.Driver

/-- The outputs a hold is to preserve. -/
structure Shown where
  is_valid : Bool
  value : Word
  i_binary : Word
  i_number : Word
  deriving DecidableEq, Repr

def shown (out : MutOutput) : Shown :=
  ⟨out.ctl.is_valid, out.data.value, out.debug.i_binary, out.debug.i_number⟩

/-- The module after a list of items, one driven for each clock. -/
def after (out : MutOutput) (items : List Request) : Except Abort MutOutput :=
  (history edge out (driven items)).map (final out)

/-- A state the driver can bring the initialised module to. -/
def Reachable (out : MutOutput) : Prop :=
  ∃ items, after initialised items = .ok out

theorem after_ok {out : MutOutput} (h : Unstalled out) (items : List Request) :
    ∃ out', after out items = .ok out' ∧ Unstalled out' := by
  obtain ⟨edges, hrun, hfin⟩ := edge_total.history_ok (driven items) h
  exact ⟨final out edges, by rw [after, hrun]; rfl, hfin⟩

theorem unstalled_of_reachable {out : MutOutput} (h : Reachable out) : Unstalled out := by
  obtain ⟨items, hafter⟩ := h
  obtain ⟨out', hafter', hun⟩ := after_ok initialised_unstalled items
  rw [hafter, Except.ok.injEq] at hafter'
  exact hafter' ▸ hun

/-- Whatever the module holds, one hold empties it. -/
theorem hold_releases {out out' : MutOutput}
    (h : EdgeSpec out (itemDispatch .hold .powerUp) out') (hun : Unstalled out) :
    out'.ctl.is_valid = false := by
  have hv := h.is_valid
  have hgo : ¬ Discards (itemDispatch .hold .powerUp) := by decide
  have hadv : computeAdvance (itemDispatch .hold .powerUp) out = true := by
    rw [computeAdvance_of_unstalled hun]
    exact Bool.or_true _
  rw [if_neg hgo, if_pos hadv] at hv
  exact hv

theorem after_cons {out out' : MutOutput} (item : Request) (items : List Request)
    (h : edge out (itemDispatch item .powerUp) = .ok out') :
    after out (item :: items) = after out' items := by
  rw [after, after, driven, List.map_cons, history, h]
  cases hrun : history edge out' (driven items) with
  | error e => rw [driven] at hrun; simp only [hrun]; rfl
  | ok edges => rw [driven] at hrun; simp only [hrun]; rfl

/-- After any positive number of holds nothing is held. -/
theorem holds_release {out out' : MutOutput} (hun : Unstalled out) (n : ℕ)
    (h : after out (List.replicate (n + 1) .hold) = .ok out') : out'.ctl.is_valid = false := by
  induction n generalizing out with
  | zero =>
      obtain ⟨out₁, hedge, hspec⟩ := edge_spec (itemDispatch .hold .powerUp) hun
      rw [List.replicate_succ, after_cons _ _ hedge, List.replicate_zero] at h
      have heq : out₁ = out' := by
        rw [after, driven, List.map_nil, history_nil] at h
        exact Except.ok.inj h
      exact heq ▸ hold_releases hspec hun
  | succ n ih =>
      obtain ⟨out₁, hedge, hspec⟩ := edge_spec (itemDispatch .hold .powerUp) hun
      rw [List.replicate_succ, after_cons _ _ hedge] at h
      exact ih hspec.is_stall h

/-- **Holding.** From every reachable state with a valid datum, the outputs are
the same after `n` holds as before them exactly when `n` is zero. -/
theorem hold_holds_iff (out : MutOutput) (hreach : Reachable out)
    (hvalid : out.ctl.is_valid = true) (n : ℕ) :
    (∃ out', after out (List.replicate n .hold) = .ok out' ∧ shown out' = shown out) ↔ n = 0 := by
  have hun := unstalled_of_reachable hreach
  constructor
  · rintro ⟨out', hafter, hshown⟩
    cases n with
    | zero => rfl
    | succ n =>
        have hempty := holds_release hun n hafter
        have hsame : out'.ctl.is_valid = out.ctl.is_valid := congrArg Shown.is_valid hshown
        rw [hempty, hvalid] at hsame
        exact absurd hsame (by decide)
  · rintro rfl
    exact ⟨out, rfl, rfl⟩

/-- The module with the datum of `flush_w_advance_never_advances_t` clocked in. -/
def clockedIn : MutOutput where
  ctl := ⟨true, false, false, true⟩
  data := ⟨0xE1000000⟩
  debug := ⟨0xE1000000, 0xE8000000, true, "ADVANCE: IS_VALID(1) with IS_ADVANCE(0)"⟩

theorem clockedIn_reachable : Reachable clockedIn := by
  refine ⟨[.reset, .reset, .valueFixed Sequence.clockIn], ?_⟩
  rfl

theorem hold_holds_iff_clockedIn :
    (∃ out', after clockedIn (List.replicate 3 .hold) = .ok out' ∧
      shown out' = shown clockedIn) ↔ 3 = 0 :=
  hold_holds_iff clockedIn clockedIn_reachable rfl 3

/-- The sequence loses its datum to the first of its holds. -/
theorem hold_loses_datum :
    Reachable clockedIn ∧ clockedIn.ctl.is_valid = true ∧
      ∃ out', after clockedIn [.hold] = .ok out' ∧ out'.ctl.is_valid = false ∧
        shown out' ≠ shown clockedIn :=
  ⟨clockedIn_reachable, rfl, _, rfl, rfl, by decide⟩

end PipelineBench.Hold
