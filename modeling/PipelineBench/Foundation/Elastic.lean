import Mathlib.Data.List.Basic
import Mathlib.Logic.Function.Iterate
import Mathlib.Tactic.Common
import PipelineBench.Foundation.Run

/-!
# Elastic stages

A stage holds at most one datum. It takes a new one when it is empty or the
stage after it is ready, and may be emptied by a kill. Every datum that enters
is accounted for: it has left or it is still held. `Conserves` states this for
one edge of any machine with contents; `chain` composes stages against back
pressure.
-/

namespace PipelineBench.Elastic

open PipelineBench.Run

variable {α β σ ι : Type*}

/-! ## Conservation over a run -/

/-- The contents before an edge and what enters are what leaves and the contents
after it, in order. -/
def Conserves (contents : σ → List α) (enter leave : Edge σ ι → Option α)
    (e : Edge σ ι) : Prop :=
  contents e.before ++ (enter e).toList = (leave e).toList ++ contents e.after

/-- Edges that conserve one by one conserve as a run. -/
theorem conserves_run {ε : Type*} {step : σ → ι → Except ε σ} {contents : σ → List α}
    {enter leave : Edge σ ι → Option α} {is : List ι} {s : σ} {es : List (Edge σ ι)}
    (hrun : history step s is = .ok es) (h : ∀ e ∈ es, Conserves contents enter leave e) :
    contents s ++ es.filterMap enter = es.filterMap leave ++ contents (final s es) := by
  induction is generalizing s es with
  | nil =>
      rw [history_nil, Except.ok.injEq] at hrun
      subst hrun
      simp
  | cons i is ih =>
      obtain ⟨s', fs, -, hfs, rfl⟩ := history_cons_ok hrun
      have hrest := ih hfs fun e he => h e (List.mem_cons_of_mem _ he)
      have hhead := h ⟨s, i, s'⟩ (List.mem_cons_self ..)
      have happ : ∀ (f : Edge σ ι → Option α), (⟨s, i, s'⟩ :: fs).filterMap f =
          (f ⟨s, i, s'⟩).toList ++ fs.filterMap f := by
        intro f
        cases hf : f ⟨s, i, s'⟩ <;> simp [hf]
      rw [Conserves] at hhead
      rw [happ, happ, final_cons, ← List.append_assoc, hhead, List.append_assoc, hrest,
        ← List.append_assoc]

/-! ## One stage -/

/-- The slot after an edge. `next` says whether the stage after is ready, `up`
is the datum offered, `f` what the stage does to a datum it takes. -/
def stage (kill next : Bool) (f : α → α) (up slot : Option α) : Option α :=
  if kill then none else if slot.isNone || next then up.map f else slot

/-- The datum taken at an edge. -/
def enter (kill next : Bool) (up slot : Option α) : Option α :=
  if !kill && (slot.isNone || next) then up else none

/-- The datum that leaves at an edge, delivered or killed. -/
def leave (kill next : Bool) (slot : Option α) : Option α :=
  if kill || next then slot else none

/-- Taking a datum while the old one leaves neither loses nor doubles either. -/
theorem stage_conserves (kill next : Bool) (f : α → α) (up slot : Option α) :
    slot.toList ++ ((enter kill next up slot).map f).toList =
      (leave kill next slot).toList ++ (stage kill next f up slot).toList := by
  cases kill <;> cases next <;> cases slot <;> simp [enter, leave, stage]

/-- Forgetting part of a datum commutes with the stage. -/
theorem stage_map {f : α → α} {g : β → β} {p : α → β} (hp : ∀ a, p (f a) = g (p a))
    (kill next : Bool) (up slot : Option α) :
    (stage kill next f up slot).map p = stage kill next g (up.map p) (slot.map p) := by
  cases kill <;> cases next <;> cases slot <;> cases up <;> simp [stage, hp]

@[simp] theorem stage_kill (next : Bool) (f : α → α) (up slot : Option α) :
    stage true next f up slot = none := rfl

/-! ## Chains of stages -/

/-- A chain is ready when some stage is empty or the sink is ready. -/
def ready (sink : Bool) : List (Option α) → Bool
  | [] => sink
  | slot :: slots => slot.isNone || ready sink slots

/-- One edge of a chain, listed from source to sink: each stage is offered what
the stage before it held. -/
def chain (kill sink : Bool) (f : α → α) : Option α → List (Option α) → List (Option α)
  | _, [] => []
  | up, slot :: slots => stage kill (ready sink slots) f up slot :: chain kill sink f slot slots

/-- The datum delivered at an edge; an empty chain passes its offer through. -/
def deliver (sink : Bool) : Option α → List (Option α) → Option α
  | up, [] => if sink then up else none
  | _, slot :: slots => deliver sink slot slots

/-- The contents from the sink back to the source, each datum as it was when it
entered: `g` undoes what one stage did. -/
def contents (g : α → α) : List (Option α) → List α
  | [] => []
  | slot :: slots => (contents g slots ++ slot.toList).map g

theorem ready_iff {sink : Bool} {slots : List (Option α)} :
    ready sink slots = true ↔ none ∈ slots ∨ sink = true := by
  induction slots with
  | nil => simp [ready]
  | cons slot slots ih =>
      rw [ready, Bool.or_eq_true, ih, List.mem_cons, or_assoc]
      cases slot <;> simp

theorem length_chain (kill sink : Bool) (f : α → α) (up : Option α) (slots : List (Option α)) :
    (chain kill sink f up slots).length = slots.length := by
  induction slots generalizing up with
  | nil => rfl
  | cons slot slots ih => rw [chain, List.length_cons, List.length_cons, ih]

theorem chain_kill (sink : Bool) (f : α → α) (up : Option α) (slots : List (Option α)) :
    chain true sink f up slots = slots.map fun _ => none := by
  induction slots generalizing up with
  | nil => rfl
  | cons slot slots ih => rw [chain, stage_kill, ih, List.map_cons]

theorem contents_empty (g : α → α) {slots : List (Option α)} (h : ∀ slot ∈ slots, slot = none) :
    contents g slots = [] := by
  induction slots with
  | nil => rfl
  | cons slot slots ih =>
      rw [contents, ih fun s hs => h s (List.mem_cons_of_mem _ hs), h slot (List.mem_cons_self ..)]
      rfl

theorem map_iterate_succ (g : α → α) (n : ℕ) (o : Option α) :
    (o.map (g^[n])).toList.map g = (o.map (g^[n + 1])).toList := by
  cases o with
  | none => rfl
  | some a =>
      show [g (g^[n] a)] = [g^[n + 1] a]
      rw [Function.iterate_succ_apply']

/-- A chain that is not killed conserves its data: bubbles close and data move
up in one edge, in order. The induction is on the chain, from the source; what
the first stage gives up is what the rest is offered. -/
theorem chain_conserves {f g : α → α} (hgf : ∀ a, g (f a) = a) (sink : Bool) (up : Option α)
    (slots : List (Option α)) :
    contents g slots ++ (if ready sink slots then up else none).toList =
      ((deliver sink up slots).map (g^[slots.length])).toList ++
        contents g (chain false sink f up slots) := by
  induction slots generalizing up with
  | nil => cases sink <;> simp [contents, ready, deliver, chain]
  | cons slot slots ih =>
      have hg : (up.map f).toList.map g = up.toList := by
        cases up <;> simp [hgf]
      have ih := congrArg (List.map g) (ih slot)
      rw [List.map_append, List.map_append, map_iterate_succ] at ih
      rw [contents, chain, contents, deliver, ready, List.map_append, List.map_append,
        List.length_cons, ← List.append_assoc, ← ih]
      cases hr : ready sink slots <;> cases slot <;> simp [stage, hg]

end PipelineBench.Elastic
