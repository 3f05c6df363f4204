import PipelineBench.Foundation.Run
import PipelineBench.Uvm.Transaction

/-!
# The monitor thread

`monitor.h`: `collect_transactions` is a loop over a state variable with two
waits and five fall-throughs. The text is modelled as a control-flow graph: a
`Point` is where the thread stands, `advance` executes the text up to the next
point, and `resume` runs from one wait to the next.
-/

namespace PipelineBench.Monitor

open PipelineBench.Run PipelineBench.Transaction

/-! ## Sampling -/

def sampleState (out : MutOutput) : MutOutputState where
  -- the advance captured by `cycle`, not the combinational one
  ctl := ⟨out.debug.is_advance, out.ctl.is_error, out.ctl.is_stall, out.ctl.is_valid⟩
  data := ⟨out.data.value⟩
  debug := ⟨out.debug.i_binary, out.debug.i_number, out.debug.is_advance⟩

def sampleStimuli (inp : MutInput) : MutInputStimuli where
  ctl := inp.ctl
  data := inp.data
  debug := ⟨inp.debug.i_binary, inp.debug.i_number, inp.debug.is_error⟩

/-- What the two sampling functions return during one evaluation phase. -/
structure Sample where
  state : MutOutputState
  stimuli : MutInputStimuli
  deriving DecidableEq, Repr

/-! ## The transaction of an edge -/

/-- What an edge shows: its signals are sampled as they stand before it. -/
def shown (e : Edge MutOutput MutInput) : Sample := ⟨sampleState e.before, sampleStimuli e.input⟩

/-- The signals the monitor reports for an edge. -/
def edgeSignals (e : Edge MutOutput MutInput) : SingleCycleSignals where
  state_0 := sampleState e.before
  stimuli := sampleStimuli e.input
  state_1 := sampleState e.after

/-- The transaction the monitor forms for an edge. -/
def edgeTransaction (e : Edge MutOutput MutInput) : SingleCycleTransaction :=
  (Basic.fresh .ugly).setValue (edgeSignals e)

/-! ## `collect_transactions` -/

/-- `enum class state_t`. `unlisted` is any other value of the underlying
integer, which only the `default` label would catch. -/
inductive State where
  | complete
  | start
  | trInitialise
  | sampleBegin
  | wait
  | trBegin
  | sampleEnd
  | trEnd
  | transmit
  | unlisted
  deriving DecidableEq, Repr

/-- Where the thread stands in the text. -/
inductive Point where
  /-- at the test of the loop -/
  | loop
  /-- at a case label, dispatched to or fallen into -/
  | label (l : State)
  /-- suspended in the wait of case `start` -/
  | startWait
  /-- suspended in the wait of case `wait` -/
  | waitWait
  /-- past the loop -/
  | done
  deriving DecidableEq, Repr

def Point.suspended : Point → Bool
  | .startWait | .waitWait | .done => true
  | _ => false

/-- The locals of `collect_transactions` and the point reached. -/
structure Thread where
  point : Point
  signals : SingleCycleSignals
  state : State
  transaction : SingleCycleTransaction
  deriving DecidableEq, Repr

/-- The thread before its first statement; `signals` is uninitialised. -/
def spawn (signals : SingleCycleSignals) : Thread where
  point := .loop
  signals := signals
  state := .start
  transaction := .fresh .ugly

def stateBad : Abort :=
  .uvmFatal "STATE_BAD" "state_t::complete reached we stopped looping for transactions."

def stateInvalid : Abort :=
  .uvmFatal "STATE_INVALID" "Whisky Tango Foxtrot - how did we get here?"

/-- Execute from one point to the next. The second component is what
`output().write` transmits on the way. `begin_tr` and `end_tr` only record. -/
def advance (seen : Sample) (t : Thread) : Except Abort (Thread × List SingleCycleTransaction) :=
  match t.point with
  | .loop =>
      .ok ({ t with point := if t.state = .complete then .done else .label t.state }, [])
  | .label .complete => .error stateBad
  | .label .start => .ok ({ t with point := .startWait }, [])
  | .startWait => .ok ({ t with state := .trInitialise, point := .loop }, [])
  | .label .trInitialise =>
      .ok ({ t with
        transaction := t.transaction.reset .ugly
        signals := { t.signals with state_1 := seen.state }
        state := .sampleBegin
        point := .loop }, [])
  | .label .sampleBegin =>
      .ok ({ t with
        transaction := t.transaction.invalidate
        signals := { t.signals with state_0 := t.signals.state_1, stimuli := seen.stimuli }
        state := .wait
        point := .label .wait }, [])
  | .label .wait => .ok ({ t with point := .waitWait }, [])
  | .waitWait => .ok ({ t with state := .trBegin, point := .label .trBegin }, [])
  | .label .trBegin => .ok ({ t with state := .sampleEnd, point := .label .sampleEnd }, [])
  | .label .sampleEnd =>
      let signals := { t.signals with state_1 := seen.state }
      .ok ({ t with
        signals := signals
        transaction := t.transaction.setValue signals
        state := .trEnd
        point := .label .trEnd }, [])
  | .label .trEnd => .ok ({ t with state := .transmit, point := .label .transmit }, [])
  | .label .transmit =>
      .ok ({ t with state := .sampleBegin, point := .loop }, [t.transaction])
  | .label .unlisted => .error stateInvalid
  | .done => .ok (t, [])

/-- Run to the next wait. `fuel` bounds the points passed. -/
def resume (seen : Sample) : ℕ → Thread → Except Abort (Thread × List SingleCycleTransaction)
  | 0, _ => .error .unfinished
  | fuel + 1, t =>
      match advance seen t with
      | .error e => .error e
      | .ok (t', sent) =>
          if t'.point.suspended then .ok (t', sent)
          else (resume seen fuel t').map fun r => (r.1, sent ++ r.2)

/-- The thread is started and then woken by `n` rising edges, which show it
`samples 0 .. samples (n - 1)`; `before` is what it could see at its start. -/
def collectTransactions (fuel : ℕ) (signals : SingleCycleSignals) (before : Sample)
    (samples : ℕ → Sample) : ℕ → Except Abort (Thread × List SingleCycleTransaction)
  | 0 => resume before fuel (spawn signals)
  | n + 1 =>
      match collectTransactions fuel signals before samples n with
      | .error e => .error e
      | .ok (t, sent) => (resume (samples n) fuel t).map fun r => (r.1, sent ++ r.2)

/-! ## One wake-up -/

/-- The most points a wake-up passes. -/
def wakeFuel : ℕ := 8

/-- Waiting in case `wait` after an edge that showed `seen`, with a transaction
begun and not yet good. -/
structure Armed (seen : Sample) (t : Thread) : Prop where
  point : t.point = .waitWait
  state : t.state = .wait
  not_good : t.transaction.good = false
  state_0 : t.signals.state_0 = seen.state
  stimuli : t.signals.stimuli = seen.stimuli
  state_1 : t.signals.state_1 = seen.state

theorem resume_spawn (fuel : ℕ) (signals : SingleCycleSignals) (seen : Sample) :
    resume seen (fuel + wakeFuel) (spawn signals) =
      .ok ({ spawn signals with point := .startWait }, []) := by
  simp [wakeFuel, resume, advance, spawn, Point.suspended, Except.map]

/-- The first edge samples the begin state and transmits nothing. -/
theorem resume_start (fuel : ℕ) (signals : SingleCycleSignals) (seen : Sample) :
    ∃ t, resume seen (fuel + wakeFuel) { spawn signals with point := .startWait } = .ok (t, []) ∧
      Armed seen t := by
  refine ⟨_, by simp [wakeFuel, resume, advance, spawn, Point.suspended, Except.map]; rfl, ?_⟩
  constructor <;> rfl

/-- Every later edge completes the transaction begun at the edge before it, and
begins the next one from the same sample. -/
theorem resume_armed (fuel : ℕ) {was : Sample} (seen : Sample) {t : Thread} (h : Armed was t) :
    ∃ t', resume seen (fuel + wakeFuel) t =
        .ok (t', [⟨true, ⟨was.state, was.stimuli, seen.state⟩⟩]) ∧
      Armed seen t' := by
  obtain ⟨point, ⟨s0, st, s1⟩, state, transaction⟩ := t
  obtain ⟨rfl, rfl, -, rfl, rfl, rfl⟩ := h
  refine ⟨_, by
    simp [wakeFuel, resume, advance, Point.suspended, Except.map, Basic.setValue]
    rfl, ?_⟩
  constructor <;> rfl

/-! ## The whole run -/

/-- The transaction of the edge that showed `a`, completed when the next edge
showed `b`. -/
def transactionOf (a b : Sample) : SingleCycleTransaction := ⟨true, ⟨a.state, a.stimuli, b.state⟩⟩

/-- After its first `n + 1` edges the thread waits for the next one, and has
transmitted one transaction for each pair of neighbouring edges. -/
theorem collectTransactions_armed (fuel : ℕ) (signals : SingleCycleSignals) (before : Sample)
    (samples : ℕ → Sample) (n : ℕ) :
    ∃ t, collectTransactions (fuel + wakeFuel) signals before samples (n + 1) =
        .ok (t, (List.range n).map fun k => transactionOf (samples k) (samples (k + 1))) ∧
      Armed (samples n) t := by
  induction n with
  | zero =>
      obtain ⟨t, ht, harmed⟩ := resume_start fuel signals (samples 0)
      refine ⟨t, ?_, harmed⟩
      rw [collectTransactions, collectTransactions, resume_spawn]
      simp only [ht, Except.map]
      rfl
  | succ n ih =>
      obtain ⟨t, ht, harmed⟩ := ih
      obtain ⟨t', ht', harmed'⟩ := resume_armed fuel (samples (n + 1)) harmed
      refine ⟨t', ?_, harmed'⟩
      rw [collectTransactions, ht]
      simp only [ht', Except.map, List.range_succ, List.map_append, List.map_cons, List.map_nil]
      rfl

/-- The thread states that occur, at any point and whatever is sampled. -/
inductive Visited (signals : SingleCycleSignals) : Thread → Prop
  | spawn : Visited signals (spawn signals)
  | advance {seen : Sample} {t t' : Thread} {sent : List SingleCycleTransaction} :
      Visited signals t → advance seen t = .ok (t', sent) → Visited signals t'

/-- The state variable agrees with the label the thread stands at, and is never
one of the two values whose labels are fatal. -/
def Sound (t : Thread) : Prop :=
  t.state ≠ .complete ∧ t.state ≠ .unlisted ∧
    match t.point with
    | .loop => True
    | .label l => l = t.state
    | .startWait => t.state = .start
    | .waitWait => t.state = .wait
    | .done => False

theorem sound_advance {seen : Sample} {t t' : Thread} {sent : List SingleCycleTransaction}
    (h : Sound t) (ha : advance seen t = .ok (t', sent)) : Sound t' := by
  obtain ⟨point, signals, state, transaction⟩ := t
  obtain ⟨hc, hu, hp⟩ := h
  cases point with
  | loop =>
      simp only [advance, if_neg hc, Except.ok.injEq, Prod.mk.injEq] at ha
      obtain ⟨rfl, -⟩ := ha
      exact ⟨hc, hu, rfl⟩
  | label l =>
      cases l <;> simp only [advance, Except.ok.injEq, Prod.mk.injEq, reduceCtorEq] at ha
      all_goals
        obtain ⟨rfl, -⟩ := ha
        simp_all [Sound]
  | startWait =>
      simp only [advance, Except.ok.injEq, Prod.mk.injEq] at ha
      obtain ⟨rfl, -⟩ := ha
      simp [Sound]
  | waitWait =>
      simp only [advance, Except.ok.injEq, Prod.mk.injEq] at ha
      obtain ⟨rfl, -⟩ := ha
      simp [Sound]
  | done => exact hp.elim

theorem sound_of_visited {signals : SingleCycleSignals} {t : Thread}
    (h : Visited signals t) : Sound t := by
  induction h with
  | spawn => simp [Sound, spawn]
  | advance _ ha ih => exact sound_advance ih ha

/-- **Monitor transcript.** When edge `n + 1` has woken the thread it has
transmitted exactly the transactions of edges `0 .. n`, each good and each
ending where the next begins; no wake-up fails, and no reachable point of the
thread is the end of the loop, the `complete` label or the `default` label. -/
theorem monitor_transcript (fuel : ℕ) (signals : SingleCycleSignals) (before : Sample)
    (S : ℕ → MutOutputState) (I : ℕ → MutInputStimuli) (n : ℕ) :
    (∃ t sent, collectTransactions (fuel + wakeFuel) signals before (fun k => ⟨S k, I k⟩) (n + 2) =
        .ok (t, sent) ∧ t.point = .waitWait ∧ t.state = .wait ∧
      sent.length = n + 1 ∧
      ∀ k, (hk : k < sent.length) → sent[k].good = true ∧
        sent[k].value = .ok ⟨S k, I k, S (k + 1)⟩) ∧
    ∀ t, Visited signals t → t.state ≠ .complete ∧ t.point ≠ .done ∧
      t.point ≠ .label .complete ∧ t.point ≠ .label .unlisted := by
  constructor
  · obtain ⟨t, ht, harmed⟩ :=
      collectTransactions_armed fuel signals before (fun k => ⟨S k, I k⟩) (n + 1)
    refine ⟨t, _, ht, harmed.point, harmed.state, by simp, ?_⟩
    intro k hk
    simp [transactionOf, Basic.good, Basic.value]
  · intro t ht
    obtain ⟨hc, hu, hp⟩ := sound_of_visited ht
    refine ⟨hc, ?_, ?_, ?_⟩ <;> intro heq <;> rw [heq] at hp
    · exact hp
    · exact hc hp.symm
    · exact hu hp.symm

end PipelineBench.Monitor
