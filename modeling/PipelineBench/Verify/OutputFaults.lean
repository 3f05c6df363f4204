import PipelineBench.Verify.AnyVerdict
import PipelineBench.Verify.Conservation
import PipelineBench.Verify.UnitTest

/-!
# What the two benches make of a faulty output

The registers of the module are right and the wires that leave it are not: the
data output shows a function of the register, and the number, the binary and the
string of the debug output show anything. The unit test reads the controls and the
captured advance, and the predictor leaves the rest of the debug output out, so
neither sees more than the data they compare.
-/

namespace PipelineBench.OutputFaults

open SingleCycle Monitor Transaction Predictor ScoreBoard UvmTest Sequence Program
open Conservation
open AnyModule (edgeAt edgeAt_spec)

/-! ## The unit test sees what it reads back -/

section ReadBack

open EvilTest Spin

variable {σ : Type} {m m' : Spin.ModuleUnderTest σ}

end ReadBack

/-! ## The faults -/

/-- A fault of the outputs that leaves the control signals alone, and with them
the advance that is captured on the debug output. -/
structure Fault where
  value : Word → Word
  i_binary : MutOutput → Word
  i_number : MutOutput → Word
  string : MutOutput → String

namespace Fault

variable (fault : Fault)

/-- What is seen of the outputs. -/
def shown (out : MutOutput) : MutOutput where
  ctl := out.ctl
  data := ⟨fault.value out.data.value⟩
  debug := ⟨fault.i_binary out, fault.i_number out, out.debug.is_advance, fault.string out⟩

/-- The module that ships, behind the fault, in the UVM bench. -/
def uvmModule : AnyModule.ModuleUnderTest MutOutput where
  edge := edge
  outputs out inp := fault.shown (settle inp out)

end Fault

/-- The fault does not show on any datum accepted ahead of the last clock. -/
def Transparent (fault : Fault) (driven : List MutInput) (clocks : ℕ) : Prop :=
  ∀ k, k + 1 < clocks → ∀ d, accepted (edgeAt driven k) = some d →
    fault.value (~~~d.value) = ~~~d.value

/-! ## One transaction behind the fault -/

theorem accepted_eq_some_iff {e : Run.Edge MutOutput MutInput} {d : Datum} :
    accepted e = some d ↔
      Advances e.before e.input ∧ e.input.ctl.is_valid = true ∧ presented e.input = d := by
  rw [accepted, Option.ite_none_right_eq_some, Option.some.injEq]
  constructor
  · rintro ⟨⟨hreset, hflush, hvalid, hadvance⟩, hd⟩
    exact ⟨⟨hreset, hflush, hadvance⟩, hvalid, hd⟩
  · rintro ⟨⟨hreset, hflush, hadvance⟩, hvalid, hd⟩
    exact ⟨⟨hreset, hflush, hvalid, hadvance⟩, hd⟩

theorem valid_of_accepted {e : Run.Edge MutOutput MutInput}
    (h : EdgeSpec e.before e.input e.after) (hadv : Advances e.before e.input)
    (hvalid : e.input.ctl.is_valid = true) : e.after.ctl.is_valid = true := by
  have hv := h.is_valid
  rw [if_neg (not_discards_iff.mpr ⟨hadv.1, hadv.2.1⟩), if_pos hadv.2.2] at hv
  exact hv.trans hvalid

/-- The boards object to a transaction exactly when it accepts a datum on which
the fault shows. A datum that is held is predicted from what was shown of it. -/
theorem asPredicted_iff (fault : Fault) (driven : List MutInput) (k : ℕ) :
    AnyModule.AsPredicted (AnyModule.signalsAt fault.uvmModule driven initialised k) ↔
      ∀ d, accepted (edgeAt driven k) = some d → fault.value (~~~d.value) = ~~~d.value := by
  obtain ⟨-, hspec⟩ := edgeAt_spec driven k
  have hctl : ControlsAgree (AnyModule.signalsAt fault.uvmModule driven initialised k) :=
    Oracle.controlsAgree_of_edge hspec
  have hvalid : (AnyModule.signalsAt fault.uvmModule driven initialised k).state_1.ctl.is_valid =
      (edgeAt driven k).after.ctl.is_valid := rfl
  have hvalue : ValueAgrees (AnyModule.signalsAt fault.uvmModule driven initialised k) ↔
      fault.value (edgeAt driven k).after.data.value =
        if computeAdvance (edgeAt driven k).input (edgeAt driven k).before then
          ~~~(edgeAt driven k).input.data.value
        else fault.value (edgeAt driven k).before.data.value := Iff.rfl
  rw [AnyModule.AsPredicted, hvalid, hvalue, and_iff_right hctl]
  constructor
  · intro hagrees d hd
    obtain ⟨hadv, hin, rfl⟩ := accepted_eq_some_iff.mp hd
    have hshown := hagrees (valid_of_accepted hspec hadv hin)
    rw [if_pos hadv.2.2, hspec.value, if_pos hadv] at hshown
    exact hshown
  · intro hclear hafter
    rcases Oracle.valid_after hspec hafter with ⟨hadv, hin, hval⟩ | ⟨hno, -, hval⟩
    · rw [if_pos hadv.2.2, hval]
      exact hclear _ (accepted_eq_some_iff.mpr ⟨hadv, hin, rfl⟩)
    · -- the datum is held, and the predictor is told what is seen of it
      have hkeep : ¬ computeAdvance (edgeAt driven k).input (edgeAt driven k).before = true := by
        intro hready
        have hv := hspec.is_valid
        by_cases hdis : Discards (edgeAt driven k).input
        · rw [if_pos hdis, hafter] at hv
          exact absurd hv (by decide)
        · obtain ⟨hreset, hflush⟩ := not_discards_iff.mp hdis
          exact hno ⟨hreset, hflush, hready⟩
      rw [if_neg hkeep, hval]

/-! ## The two programs -/

theorem uvm_codes (fault : Fault) {beyond : ℕ → Char} {g : Request.Generator}
    (signals : SingleCycleSignals) {sequences : List TestSequence} {items : List Request}
    (hitems : startAll beyond g sequences = .ok items) (idle : ℕ) {clocks : ℕ}
    (hlt : clocks < 2 ^ 32) :
    (AnyModule.scMain fault.uvmModule beyond g signals initialised sequences idle clocks =
        some UvmReturnCode.success.toInt ↔
      Covers (drivenInputs idle items) clocks ∧
        Transparent fault (drivenInputs idle items) clocks) ∧
    (AnyModule.scMain fault.uvmModule beyond g signals initialised sequences idle clocks =
        some UvmReturnCode.testFail.toInt ↔
      ¬ (Covers (drivenInputs idle items) clocks ∧
        Transparent fault (drivenInputs idle items) clocks)) := by
  rcases AnyModule.observe_spec fault.uvmModule signals initialised idle items hlt with
    ⟨e, herr, -⟩ | ⟨sn, bench, -, hrun, hpass⟩
  · -- the module itself takes every input
    obtain ⟨sn, hdrive, -⟩ :=
      AnyModule.shipped_drive (Bench.inputAt (drivenInputs idle items)) clocks
    cases hdrive.symm.trans herr
  · have hclear : Transparent fault (drivenInputs idle items) clocks ↔ ∀ k, k + 1 < clocks →
        AnyModule.AsPredicted
          (AnyModule.signalsAt fault.uvmModule (drivenInputs idle items) initialised k) :=
      forall₂_congr fun k _ => (asPredicted_iff fault (drivenInputs idle items) k).symm
    rw [AnyModule.scMain_of_observe hitems hrun, hclear, ← hpass]
    exact AnyModule.code_iff bench.isPass

end PipelineBench.OutputFaults
