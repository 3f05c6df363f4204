import PipelineBench.Foundation.TwoRuns
import PipelineBench.Verify.Conservation

/-!
# What two runs of the module have in common

Two runs that share a reset cycle cannot be told apart afterwards, although
reset leaves the data registers alone. Two runs that share their control inputs
have the same control outputs, whatever data they carry.
-/

namespace PipelineBench.Independence

open PipelineBench.Run PipelineBench.SingleCycle PipelineBench.Conservation

/-! ## The minimal reset is sufficient -/

/-- The outputs show the same from here on: the registered controls, the advance
under every input, and the data while they are valid. The advance captured at the
last edge is not compared. -/
structure Indistinct (a b : MutOutput) : Prop where
  is_error : a.ctl.is_error = b.ctl.is_error
  is_stall : a.ctl.is_stall = b.ctl.is_stall
  is_valid : a.ctl.is_valid = b.ctl.is_valid
  is_advance : ∀ inp, (settle inp a).ctl.is_advance = (settle inp b).ctl.is_advance
  value : a.ctl.is_valid = true → a.data.value = b.data.value
  i_binary : a.ctl.is_valid = true → a.debug.i_binary = b.debug.i_binary
  i_number : a.ctl.is_valid = true → a.debug.i_number = b.debug.i_number

/-- The invariant of the two runs: the same error bit and the same datum held. -/
structure Alike (a b : MutOutput) : Prop where
  unstalled : Unstalled a
  unstalled' : Unstalled b
  is_error : a.ctl.is_error = b.ctl.is_error
  held : held a = held b

theorem Alike.is_valid {a b : MutOutput} (h : Alike a b) : a.ctl.is_valid = b.ctl.is_valid := by
  have hnone : (Conservation.held a).isNone = (Conservation.held b).isNone := by rw [h.held]
  rw [isNone_held, isNone_held] at hnone
  exact Bool.not_inj hnone

theorem Alike.computeAdvance {a b : MutOutput} (h : Alike a b) (inp : MutInput) :
    SingleCycle.computeAdvance inp a = SingleCycle.computeAdvance inp b := by
  rw [advance_eq_ready inp h.unstalled, advance_eq_ready inp h.unstalled', h.held]

theorem Alike.registers {a b : MutOutput} (h : Alike a b) (hvalid : a.ctl.is_valid = true) :
    Conservation.registers a = Conservation.registers b := by
  have hheld := h.held
  unfold Conservation.held at hheld
  rw [if_pos hvalid, if_pos (h.is_valid ▸ hvalid), Option.some.injEq] at hheld
  exact hheld

theorem Alike.indistinct {a b : MutOutput} (h : Alike a b) : Indistinct a b where
  is_error := h.is_error
  is_stall := h.unstalled.trans h.unstalled'.symm
  is_valid := h.is_valid
  is_advance := h.computeAdvance
  value := fun hv => congrArg Datum.value (h.registers hv)
  i_binary := fun hv => congrArg Datum.i_binary (h.registers hv)
  i_number := fun hv => congrArg Datum.i_number (h.registers hv)

/-- What an edge leaves depends on the error bit and the datum held alone. -/
theorem Alike.step {a a' b b' : MutOutput} {inp : MutInput} (h : Alike a b)
    (ha : EdgeSpec a inp a') (hb : EdgeSpec b inp b') :
    Alike a' b' ∧ a'.debug.is_advance = b'.debug.is_advance := by
  refine ⟨⟨ha.is_stall, hb.is_stall, ?_, ?_⟩, ?_⟩
  · rw [ha.is_error, hb.is_error, h.is_error]
  · rw [held_after h.unstalled ha, held_after h.unstalled' hb, h.held]
  · rw [ha.captured, hb.captured, h.computeAdvance inp]

/-- A reset makes any two states alike. -/
theorem alike_of_reset {a a' b b' : MutOutput} {inp : MutInput} (hreset : inp.ctl.reset = false)
    (ha : EdgeSpec a inp a') (hb : EdgeSpec b inp b') : Alike a' b' := by
  have hdis : Discards inp := Or.inl hreset
  have hempty : ∀ {c c' : MutOutput}, EdgeSpec c inp c' → held c' = none := by
    intro c c' hc
    unfold held
    rw [hc.is_valid, if_pos hdis]
    rfl
  refine ⟨ha.is_stall, hb.is_stall, ?_, ?_⟩
  · rw [ha.is_error, hb.is_error, hreset]
    rfl
  · rw [hempty ha, hempty hb]

/-- Edges after which the runs cannot be told apart, and at which they advanced
alike. -/
def SameEdge (e f : Edge MutOutput MutInput) : Prop :=
  Indistinct e.after f.after ∧ e.after.debug.is_advance = f.after.debug.is_advance

theorem alike_sync : Sync edge Alike (· = ·) (fun _ _ => True) SameEdge := by
  rintro a b inp _ h rfl
  obtain ⟨a', hedge, ha⟩ := edge_spec inp h.unstalled
  obtain ⟨b', hedge', hb⟩ := edge_spec inp h.unstalled'
  refine Or.inr ⟨a', b', hedge, hedge', ?_⟩
  intro _
  obtain ⟨hnext, hadv⟩ := h.step ha hb
  exact ⟨hnext, hnext.indistinct, hadv⟩

/-- Runs from alike states on the same inputs both succeed. -/
theorem alike_history {a b : MutOutput} (h : Alike a b) (xs : List MutInput) :
    ∃ es fs, history edge a xs = .ok es ∧ history edge b xs = .ok fs ∧
      List.Forall₂ SameEdge es fs := by
  obtain ⟨hall, hend⟩ := trace_sync alike_sync (List.forall₂_refl xs) h (fun _ _ => trivial)
  obtain ⟨es, hes, -⟩ := edge_total.history_ok xs h.unstalled
  obtain ⟨fs, hfs, -⟩ := edge_total.history_ok xs h.unstalled'
  refine ⟨es, fs, hes, hfs, ?_⟩
  rw [trace_of_history hes, trace_of_history hfs] at hall
  exact hall

/-- **The minimal reset is sufficient.** From any two states, stalled or not, two
runs on the same inputs that begin with a reset both succeed. After the reset
and ever after their outputs are indistinct, and every later edge captures the
same advance. -/
theorem reset_sufficient (a b : MutOutput) (x : MutInput) (xs : List MutInput)
    (hreset : x.ctl.reset = false) :
    ∃ e f es fs, history edge a (x :: xs) = .ok (e :: es) ∧
      history edge b (x :: xs) = .ok (f :: fs) ∧
      Indistinct e.after f.after ∧
      List.Forall₂ (fun e f => Indistinct e.after f.after ∧
        e.after.debug.is_advance = f.after.debug.is_advance) es fs := by
  have hdis : Discards x := Or.inl hreset
  obtain ⟨a', hedge, ha⟩ := edge_discards a hdis
  obtain ⟨b', hedge', hb⟩ := edge_discards b hdis
  have hlike := alike_of_reset hreset ha hb
  obtain ⟨es, fs, hes, hfs, hall⟩ := alike_history hlike xs
  exact ⟨_, _, es, fs, history_cons hedge hes, history_cons hedge' hfs, hlike.indistinct, hall⟩

/-- Two states in which the registers and the data ports differ. -/
theorem reset_sufficient_stalled :
    ∃ e f es fs,
      history edge ⟨⟨true, true, true, true⟩, ⟨7⟩, ⟨8, 9, true, ""⟩⟩
        [⟨⟨false, true, true, true⟩, ⟨5⟩, ⟨1, 2, true, ""⟩⟩,
          ⟨⟨true, false, false, true⟩, ⟨6⟩, ⟨3, 4, false, ""⟩⟩] = .ok (e :: es) ∧
      history edge initialised
        [⟨⟨false, true, true, true⟩, ⟨5⟩, ⟨1, 2, true, ""⟩⟩,
          ⟨⟨true, false, false, true⟩, ⟨6⟩, ⟨3, 4, false, ""⟩⟩] = .ok (f :: fs) ∧
      Indistinct e.after f.after ∧
      List.Forall₂ (fun e f => Indistinct e.after f.after ∧
        e.after.debug.is_advance = f.after.debug.is_advance) es fs :=
  reset_sufficient _ _ _ _ rfl

/-! ## Control and data are orthogonal -/

/-- The control outputs of a pair of edges agree: the advance settled before
them, and what they leave. -/
structure SameControls (e f : Edge MutOutput MutInput) : Prop where
  is_advance : (settle e.input e.before).ctl.is_advance = (settle f.input f.before).ctl.is_advance
  captured : e.after.debug.is_advance = f.after.debug.is_advance
  is_stall : e.after.ctl.is_stall = f.after.ctl.is_stall
  is_valid : e.after.ctl.is_valid = f.after.ctl.is_valid

/-- The registers the control outputs depend on. -/
def SameRegisters (a b : MutOutput) : Prop :=
  a.ctl.is_stall = b.ctl.is_stall ∧ a.ctl.is_valid = b.ctl.is_valid

theorem computeAdvance_of_same {a b : MutOutput} {x y : MutInput} (h : SameRegisters a b)
    (hctl : x.ctl = y.ctl) : computeAdvance x a = computeAdvance y b := by
  unfold computeAdvance
  rw [h.1, h.2, hctl]

theorem discards_of_same {x y : MutInput} (hctl : x.ctl = y.ctl) : Discards x ↔ Discards y := by
  unfold Discards
  rw [hctl]

theorem advances_of_same {a b : MutOutput} {x y : MutInput} (h : SameRegisters a b)
    (hctl : x.ctl = y.ctl) : Advances a x ↔ Advances b y := by
  unfold Advances
  rw [computeAdvance_of_same h hctl, hctl]

theorem sameControls_of_edge {a a' b b' : MutOutput} {x y : MutInput} (h : SameRegisters a b)
    (hctl : x.ctl = y.ctl) (ha : EdgeSpec a x a') (hb : EdgeSpec b y b') :
    SameControls ⟨a, x, a'⟩ ⟨b, y, b'⟩ := by
  have hadv := computeAdvance_of_same h hctl
  refine ⟨hadv, ?_, ?_, ?_⟩
  · rw [ha.captured, hb.captured, hadv]
  · rw [ha.is_stall, hb.is_stall]
  · show a'.ctl.is_valid = b'.ctl.is_valid
    rw [ha.is_valid, hb.is_valid, hadv, h.2, hctl]
    by_cases hdis : Discards x
    · rw [if_pos hdis, if_pos ((discards_of_same hctl).mp hdis)]
    · rw [if_neg hdis, if_neg fun hy => hdis ((discards_of_same hctl).mpr hy)]

/-- The exception is met in both runs or in neither. -/
theorem edges_of_same {a b : MutOutput} {x y : MutInput} (h : SameRegisters a b)
    (hctl : x.ctl = y.ctl) :
    (∃ e, edge a x = .error e ∧ edge b y = .error e) ∨
      ∃ a' b', edge a x = .ok a' ∧ edge b y = .ok b' ∧ EdgeSpec a x a' ∧ EdgeSpec b y b' := by
  -- reset and flush clear a stall; otherwise the stall register decides
  by_cases hdis : Discards x
  · obtain ⟨a', hedge, ha⟩ := edge_discards a hdis
    obtain ⟨b', hedge', hb⟩ := edge_discards b ((discards_of_same hctl).mp hdis)
    exact Or.inr ⟨a', b', hedge, hedge', ha, hb⟩
  · have hdis' : ¬ Discards y := fun hy => hdis ((discards_of_same hctl).mpr hy)
    cases hs : a.ctl.is_stall with
    | true => exact Or.inl ⟨stallError, edge_stalled hs hdis, edge_stalled (h.1 ▸ hs) hdis'⟩
    | false =>
        obtain ⟨a', hedge, ha⟩ := edge_spec x hs
        obtain ⟨b', hedge', hb⟩ := edge_spec y (h.1 ▸ hs)
        exact Or.inr ⟨a', b', hedge, hedge', ha, hb⟩

theorem controls_sync :
    Sync edge SameRegisters (fun x y => x.ctl = y.ctl) (fun _ _ => True) SameControls := by
  intro a b x y h hctl
  rcases edges_of_same h hctl with herror | ⟨a', b', hedge, hedge', ha, hb⟩
  · exact Or.inl herror
  · refine Or.inr ⟨a', b', hedge, hedge', ?_⟩
    intro _
    have hsame := sameControls_of_edge h hctl ha hb
    exact ⟨⟨hsame.is_stall, hsame.is_valid⟩, hsame⟩

/-- The data input agrees where it is taken. -/
def SameTaken (e f : Edge MutOutput MutInput) : Prop :=
  Advances e.before e.input → e.input.data.value = f.input.data.value

def SameValue (e f : Edge MutOutput MutInput) : Prop :=
  e.after.data.value = f.after.data.value

theorem values_sync :
    Sync edge (fun a b => SameRegisters a b ∧ a.data.value = b.data.value)
      (fun x y => x.ctl = y.ctl) SameTaken SameValue := by
  rintro a b x y ⟨h, hval⟩ hctl
  rcases edges_of_same h hctl with herror | ⟨a', b', hedge, hedge', ha, hb⟩
  · exact Or.inl herror
  · refine Or.inr ⟨a', b', hedge, hedge', ?_⟩
    intro htaken
    have hsame := sameControls_of_edge h hctl ha hb
    have hvalue : a'.data.value = b'.data.value := by
      rw [ha.value, hb.value]
      by_cases hadv : Advances a x
      · rw [if_pos hadv, if_pos ((advances_of_same h hctl).mp hadv)]
        have hinput : x.data.value = y.data.value := htaken hadv
        rw [hinput]
      · rw [if_neg hadv, if_neg fun hy => hadv ((advances_of_same h hctl).mpr hy), hval]
    exact ⟨⟨⟨hsame.is_stall, hsame.is_valid⟩, hvalue⟩, hvalue⟩

/-- A run of the module ends with no other error. -/
theorem trace_edge_error {out : MutOutput} {xs : List MutInput} {e : Abort}
    (h : (trace edge out xs).2 = .error e) : e = stallError := by
  induction xs generalizing out with
  | nil => cases h
  | cons x xs ih =>
      rcases edge_cases out x with ⟨-, -, hedge⟩ | ⟨out', hedge, -⟩
      · rw [trace_error hedge] at h
        exact (Except.error.inj h).symm
      · rw [trace_ok hedge] at h
        exact ih h

/-- **Control and data are orthogonal.** Two runs with equal stall and valid
registers and equal control inputs take the same number of edges, agree in every
control output on the way, and both succeed or both end with the exception. When
the data inputs agree at the edges that take them and the value registers agree
at the start, the data outputs agree as well. -/
theorem controls_orthogonal (a b : MutOutput) (xs ys : List MutInput)
    (hstall : a.ctl.is_stall = b.ctl.is_stall) (hvalid : a.ctl.is_valid = b.ctl.is_valid)
    (hctl : List.Forall₂ (fun x y => x.ctl = y.ctl) xs ys) :
    List.Forall₂ SameControls (trace edge a xs).1 (trace edge b ys).1 ∧
    ((∃ s t, (trace edge a xs).2 = .ok s ∧ (trace edge b ys).2 = .ok t) ∨
      ((trace edge a xs).2 = .error stallError ∧ (trace edge b ys).2 = .error stallError)) ∧
    (a.data.value = b.data.value →
      (∀ p ∈ (trace edge a xs).1.zip (trace edge b ys).1,
        p.1.input.ctl.reset = true ∧ p.1.input.ctl.is_flush = false ∧
          (settle p.1.input p.1.before).ctl.is_advance = true →
        p.1.input.data.value = p.2.input.data.value) →
      List.Forall₂ (fun e f => e.after.data.value = f.after.data.value)
        (trace edge a xs).1 (trace edge b ys).1) := by
  have hsame : SameRegisters a b := ⟨hstall, hvalid⟩
  obtain ⟨hall, hend⟩ := trace_sync controls_sync hctl hsame (fun _ _ => trivial)
  refine ⟨hall, ?_, ?_⟩
  · rcases hend with ⟨e, hs, ht⟩ | ⟨s, t, hs, ht, -⟩
    · have he := trace_edge_error hs
      subst he
      exact Or.inr ⟨hs, ht⟩
    · exact Or.inl ⟨s, t, hs, ht⟩
  · intro hval htaken
    exact (trace_sync values_sync hctl ⟨hsame, hval⟩ htaken).1

/-- One run of the witness: a held datum waits, the next one is taken in its place,
and that one is flushed. -/
def takingRun (waiting flushed : Word) (debug : DebugIn) : List MutInput :=
  [⟨⟨true, false, false, true⟩, ⟨waiting⟩, debug⟩, ⟨⟨true, true, false, true⟩, ⟨12⟩, debug⟩,
    ⟨⟨true, true, true, true⟩, ⟨flushed⟩, debug⟩]

/-- The data differ where they wait and where they are flushed. -/
theorem controls_orthogonal_taken :
    List.Forall₂ SameControls
      (trace edge ⟨⟨true, false, false, true⟩, ⟨7⟩, ⟨8, 9, true, ""⟩⟩
        (takingRun 5 1 ⟨1, 2, true, "x"⟩)).1
      (trace edge ⟨⟨false, true, false, true⟩, ⟨7⟩, ⟨0, 0, false, ""⟩⟩
        (takingRun 6 2 ⟨3, 4, false, ""⟩)).1 ∧
    ((∃ s t,
        (trace edge ⟨⟨true, false, false, true⟩, ⟨7⟩, ⟨8, 9, true, ""⟩⟩
          (takingRun 5 1 ⟨1, 2, true, "x"⟩)).2 = .ok s ∧
        (trace edge ⟨⟨false, true, false, true⟩, ⟨7⟩, ⟨0, 0, false, ""⟩⟩
          (takingRun 6 2 ⟨3, 4, false, ""⟩)).2 = .ok t) ∨
      ((trace edge ⟨⟨true, false, false, true⟩, ⟨7⟩, ⟨8, 9, true, ""⟩⟩
          (takingRun 5 1 ⟨1, 2, true, "x"⟩)).2 = .error stallError ∧
        (trace edge ⟨⟨false, true, false, true⟩, ⟨7⟩, ⟨0, 0, false, ""⟩⟩
          (takingRun 6 2 ⟨3, 4, false, ""⟩)).2 = .error stallError)) ∧
    List.Forall₂ (fun e f => e.after.data.value = f.after.data.value)
      (trace edge ⟨⟨true, false, false, true⟩, ⟨7⟩, ⟨8, 9, true, ""⟩⟩
        (takingRun 5 1 ⟨1, 2, true, "x"⟩)).1
      (trace edge ⟨⟨false, true, false, true⟩, ⟨7⟩, ⟨0, 0, false, ""⟩⟩
        (takingRun 6 2 ⟨3, 4, false, ""⟩)).1 := by
  obtain ⟨hcontrols, hends, hvalues⟩ :=
    controls_orthogonal ⟨⟨true, false, false, true⟩, ⟨7⟩, ⟨8, 9, true, ""⟩⟩
      ⟨⟨false, true, false, true⟩, ⟨7⟩, ⟨0, 0, false, ""⟩⟩ (takingRun 5 1 ⟨1, 2, true, "x"⟩)
      (takingRun 6 2 ⟨3, 4, false, ""⟩) rfl rfl (.cons rfl (.cons rfl (.cons rfl .nil)))
  refine ⟨hcontrols, hends, hvalues rfl ?_⟩
  decide

end PipelineBench.Independence
