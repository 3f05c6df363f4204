import PipelineBench.Uvm.Simulation

/-!
# The bench, clock by clock

The four processes between two rising edges, once every signal has settled. One
clock is what the kernel makes of one rising edge: the module and the monitor see
the settled signals, and the driver's next inputs settle for the edge after it.
-/

namespace PipelineBench

open Run SingleCycle Monitor

structure Bench where
  inp : MutInput
  /-- with the advance settled -/
  out : MutOutput
  pending : List MutInput
  monitor : Thread
  transmitted : List SingleCycleTransaction

namespace Bench

/-- The driver's next writes. Signals keep their values once nothing is driven. -/
def drive (inp : MutInput) : List MutInput → MutInput × List MutInput
  | [] => (inp, [])
  | i :: rest => (i, rest)

/-- Ready for the first rising edge. -/
def start (driven : List MutInput) (signals : Transaction.SingleCycleSignals) : Bench :=
  let (inp, pending) := drive .powerUp driven
  { inp := inp
    out := settle inp initialised
    pending := pending
    monitor := { spawn signals with point := .startWait }
    transmitted := [] }

def clock (b : Bench) : Except Abort Bench :=
  match cycle b.inp b.out with
  | .error e => .error e
  | .ok out =>
      match resume ⟨sampleState b.out, sampleStimuli b.inp⟩ wakeFuel b.monitor with
      | .error e => .error e
      | .ok (t, sent) =>
          let (inp, pending) := drive b.inp b.pending
          .ok
            { inp := inp
              out := settle inp out
              pending := pending
              monitor := t
              transmitted := b.transmitted ++ sent }

def run (b : Bench) : ℕ → Except Abort Bench
  | 0 => .ok b
  | n + 1 => (run b n).bind clock

/-! ## What the bench does in a run -/

/-- The monitor after a history: it has transmitted every edge but the last,
whose end state it is waiting for. -/
inductive Watching : List (Edge MutOutput MutInput) → Thread → List SingleCycleTransaction → Prop
  | start (signals) : Watching [] { spawn signals with point := .startWait } []
  | armed {es e t} : Armed (shown e) t → Watching (es ++ [e]) t (es.map edgeTransaction)

/-- The bench after the inputs `is` have been consumed in the history `es`. -/
structure Inv (driven is : List MutInput) (es : List (Edge MutOutput MutInput)) (b : Bench) :
    Prop where
  history : history edge initialised is = .ok es
  supply : driven <+: is ++ b.inp :: b.pending
  out : b.out = settle b.inp (final initialised es)
  watching : Watching es b.monitor b.transmitted

theorem inv_start (driven : List MutInput) (signals : Transaction.SingleCycleSignals) :
    Inv driven [] [] (start driven signals) := by
  cases driven with
  | nil => exact ⟨rfl, List.nil_prefix, rfl, .start signals⟩
  | cons i rest => exact ⟨rfl, List.prefix_refl _, rfl, .start signals⟩

/-- The supply of inputs is handed on unchanged, or repeats its last one. -/
theorem supply_drive {driven is : List MutInput} {inp : MutInput} {pending : List MutInput}
    (h : driven <+: is ++ inp :: pending) :
    driven <+: (is ++ [inp]) ++ (drive inp pending).1 :: (drive inp pending).2 := by
  have hsplit : is ++ inp :: pending = (is ++ [inp]) ++ pending := by simp
  rw [hsplit] at h
  cases pending with
  | nil =>
      rw [List.append_nil] at h
      exact h.trans (List.prefix_append _ _)
  | cons i rest => exact h

/-- The last edge of a history ends in its final state. -/
theorem final_concat (s : MutOutput) (es : List (Edge MutOutput MutInput))
    (e : Edge MutOutput MutInput) : final s (es ++ [e]) = e.after := by
  rw [final_append]
  rfl

theorem watching_resume {es : List (Edge MutOutput MutInput)} {t : Thread}
    {sent : List SingleCycleTransaction} (h : Watching es t sent) {e : Edge MutOutput MutInput}
    (he : e.before = final initialised es) :
    ∃ t' more, resume (shown e) wakeFuel t = .ok (t', more) ∧
      Watching (es ++ [e]) t' (sent ++ more) := by
  cases h with
  | start signals =>
      obtain ⟨t', hres, harmed⟩ := resume_start 0 signals (shown e)
      exact ⟨t', [], hres, .armed harmed⟩
  | @armed es last t harmed =>
      obtain ⟨t', hres, harmed'⟩ := resume_armed 0 (shown e) harmed
      rw [final_concat] at he
      refine ⟨t', _, hres, ?_⟩
      have hsent : es.map edgeTransaction ++
          [⟨true, ⟨(shown last).state, (shown last).stimuli, (shown e).state⟩⟩] =
          (es ++ [last]).map edgeTransaction := by
        rw [List.map_append, shown, shown, he]
        rfl
      rw [hsent]
      exact .armed harmed'

theorem clock_inv {driven is : List MutInput} {es : List (Edge MutOutput MutInput)} {b : Bench}
    (h : Inv driven is es b) :
    ∃ e b', b.clock = .ok b' ∧ Inv driven (is ++ [b.inp]) (es ++ [e]) b' := by
  obtain ⟨hhist, hsupply, hout, hwatch⟩ := h
  have hun : Unstalled (final initialised es) := by
    obtain ⟨es', hes', hfin⟩ := edge_total.history_ok is initialised_unstalled
    rw [hhist, Except.ok.injEq] at hes'
    exact hes' ▸ hfin
  obtain ⟨out', hedge, -⟩ := edge_spec b.inp hun
  obtain ⟨t', more, hres, hwatch'⟩ :=
    watching_resume hwatch (e := ⟨final initialised es, b.inp, out'⟩) rfl
  have hcycle : cycle b.inp b.out = .ok out' := by
    rw [hout]
    exact hedge
  have hshown : (⟨sampleState b.out, sampleStimuli b.inp⟩ : Sample) =
      shown ⟨final initialised es, b.inp, out'⟩ := by
    rw [hout]
    rfl
  refine ⟨⟨final initialised es, b.inp, out'⟩,
    ⟨(drive b.inp b.pending).1, settle (drive b.inp b.pending).1 out', (drive b.inp b.pending).2,
      t', b.transmitted ++ more⟩, ?_, ?_⟩
  · rw [clock, hcycle, hshown, hres]
  · constructor
    · exact history_append hhist (history_cons hedge rfl)
    · exact supply_drive hsupply
    · rw [final_concat]
    · exact hwatch'

theorem run_inv (driven : List MutInput) (signals : Transaction.SingleCycleSignals) (n : ℕ) :
    ∃ is es b, run (start driven signals) n = .ok b ∧ is.length = n ∧ Inv driven is es b := by
  induction n with
  | zero => exact ⟨[], [], _, rfl, rfl, inv_start driven signals⟩
  | succ n ih =>
      obtain ⟨is, es, b, hrun, hlen, hinv⟩ := ih
      obtain ⟨e, b', hclock, hinv'⟩ := clock_inv hinv
      refine ⟨is ++ [b.inp], es ++ [e], b', ?_, ?_, hinv'⟩
      · rw [run, hrun]
        exact hclock
      · rw [List.length_append, hlen]
        rfl

/-- After `n` clocks the driver has driven its first `n` inputs, in order. -/
theorem driven_prefix {driven is : List MutInput} {es : List (Edge MutOutput MutInput)} {b : Bench}
    (h : Inv driven is es b) (hlen : driven.length ≤ is.length) : driven <+: is :=
  List.prefix_of_prefix_length_le h.supply (List.prefix_append _ _) hlen

/-- What has been transmitted is the history but for its last edge. -/
theorem Watching.transmitted {es : List (Edge MutOutput MutInput)} {t : Thread}
    {sent : List SingleCycleTransaction} (h : Watching es t sent) :
    sent = es.dropLast.map edgeTransaction := by
  cases h with
  | start signals => rfl
  | armed harmed => rw [List.dropLast_concat]

/-- Between two clocks the monitor stands in one of its waits. -/
theorem Watching.listening {es : List (Edge MutOutput MutInput)} {t : Thread}
    {sent : List SingleCycleTransaction} (h : Watching es t sent) :
    t.point = .startWait ∨ t.point = .waitWait := by
  cases h with
  | start signals => exact Or.inl rfl
  | armed harmed => exact Or.inr harmed.point

/-! ## Which inputs a run consumes -/

/-- The input of clock `k`: the last one driven stays on the signals. -/
def inputAt (driven : List MutInput) (k : ℕ) : MutInput :=
  driven[k]?.getD (driven.getLast?.getD .powerUp)

/-- The inputs of the first `n` clocks. -/
def consumed (driven : List MutInput) (n : ℕ) : List MutInput :=
  (List.range n).map (inputAt driven)

theorem inputAt_of_length_le {driven : List MutInput} {k : ℕ} (h : driven.length ≤ k + 1) :
    inputAt driven k = driven.getLast?.getD .powerUp := by
  rw [inputAt]
  rcases Nat.lt_or_ge k driven.length with hlt | hge
  · have hlast : driven.length - 1 = k := by omega
    rw [List.getLast?_eq_getElem?, hlast, List.getElem?_eq_getElem hlt]
    rfl
  · rw [List.getElem?_eq_none hge]
    rfl

theorem clock_drive {b b' : Bench} (h : b.clock = .ok b') :
    b'.inp = (drive b.inp b.pending).1 ∧ b'.pending = (drive b.inp b.pending).2 := by
  rw [clock] at h
  cases hcycle : cycle b.inp b.out with
  | error e => simp [hcycle] at h
  | ok out =>
      cases hres : resume ⟨sampleState b.out, sampleStimuli b.inp⟩ wakeFuel b.monitor with
      | error e => simp [hcycle, hres] at h
      | ok r =>
          simp only [hcycle, hres, Except.ok.injEq] at h
          subst h
          exact ⟨rfl, rfl⟩

/-- The driver moves on to the next input, or leaves the last one standing. -/
theorem drive_inputAt (driven : List MutInput) (n : ℕ) :
    drive (inputAt driven n) (driven.drop (n + 1)) =
      (inputAt driven (n + 1), driven.drop (n + 1 + 1)) := by
  cases hrest : driven.drop (n + 1) with
  | nil =>
      have hlen : driven.length ≤ n + 1 := List.drop_eq_nil_iff.mp hrest
      have hnil : driven.drop (n + 1 + 1) = [] := List.drop_eq_nil_iff.mpr (by omega)
      rw [drive, hnil, inputAt_of_length_le hlen,
        inputAt_of_length_le (Nat.le_succ_of_le hlen)]
  | cons i rest =>
      have hget : driven[n + 1]? = some i := by
        rw [← Nat.add_zero (n + 1), ← List.getElem?_drop, hrest]
        rfl
      have hdrop : driven.drop (n + 1 + 1) = rest := by
        rw [← List.drop_drop, hrest]
        rfl
      rw [drive, hdrop, inputAt, hget]
      rfl

/-- A run of `n` clocks consumes the first `n` inputs. -/
theorem run_consumed (driven : List MutInput) (signals : Transaction.SingleCycleSignals) (n : ℕ) :
    ∃ es b, run (start driven signals) n = .ok b ∧ Inv driven (consumed driven n) es b ∧
      b.inp = inputAt driven n ∧ b.pending = driven.drop (n + 1) := by
  induction n with
  | zero =>
      refine ⟨[], _, rfl, inv_start driven signals, ?_⟩
      cases driven <;> exact ⟨rfl, rfl⟩
  | succ n ih =>
      obtain ⟨es, b, hrun, hinv, hinp, hpending⟩ := ih
      obtain ⟨e, b', hclock, hinv'⟩ := clock_inv hinv
      obtain ⟨hinp', hpending'⟩ := clock_drive hclock
      rw [hinp, hpending, drive_inputAt] at hinp' hpending'
      refine ⟨es ++ [e], b', ?_, ?_, hinp', hpending'⟩
      · rw [run, hrun]
        exact hclock
      · rw [hinp] at hinv'
        rw [consumed, List.range_succ, List.map_append]
        exact hinv'

end Bench

end PipelineBench
