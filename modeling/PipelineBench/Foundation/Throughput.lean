import PipelineBench.Foundation.Elastic

/-!
# Progress of elastic chains

How long a datum stays in a chain that is not killed. Each edge at which the
sink is ready brings every datum one stage on, and no edge takes one back; under
a sink that is always ready the chain is a delay line.
-/

namespace PipelineBench.Elastic

open PipelineBench.Run

variable {α σ ι ε : Type*}

/-! ## Counting the data -/

/-- How many data the slots hold. -/
def load (slots : List (Option α)) : ℕ := slots.countP Option.isSome

@[simp] theorem load_nil : load ([] : List (Option α)) = 0 := rfl

theorem load_cons (slot : Option α) (slots : List (Option α)) :
    load (slot :: slots) = slot.toList.length + load slots := by
  cases slot with
  | none => simp [load]
  | some a => simp [load, Nat.add_comm]

theorem length_contents (g : α → α) (slots : List (Option α)) :
    (contents g slots).length = load slots := by
  induction slots with
  | nil => rfl
  | cons slot slots ih =>
      rw [contents, List.length_map, List.length_append, ih, load_cons, Nat.add_comm]

/-- The load grows by what enters and shrinks by what is delivered. -/
theorem load_chain (sink : Bool) (f : α → α) (up : Option α) (slots : List (Option α)) :
    load slots + (if ready sink slots then up else none).toList.length =
      (deliver sink up slots).toList.length + load (chain false sink f up slots) := by
  induction slots generalizing up with
  | nil => cases sink <;> simp [ready, deliver, chain]
  | cons slot slots ih =>
      have ih := ih slot
      rw [load_cons, chain, load_cons, deliver, ready]
      cases hr : ready sink slots <;> cases slot <;> cases up <;> simp_all [stage] <;> omega

theorem deliver_blocked (up : Option α) (slots : List (Option α)) :
    deliver false up slots = none := by
  induction slots generalizing up with
  | nil => rfl
  | cons slot slots ih => exact ih slot

/-- Nothing is lost behind a sink that is not ready, in any tail of the chain. -/
theorem load_drop_blocked (f : α → α) (up : Option α) (slots : List (Option α)) (j : ℕ) :
    load (slots.drop j) ≤ load ((chain false false f up slots).drop j) := by
  induction slots generalizing up j with
  | nil => rw [List.drop_nil, load_nil]; exact Nat.zero_le _
  | cons slot slots ih =>
      cases j with
      | zero =>
          have hload := load_chain false f up (slot :: slots)
          rw [deliver_blocked] at hload
          rw [List.drop_zero, List.drop_zero]
          simp only [Option.toList_none, List.length_nil, Nat.zero_add] at hload
          omega
      | succ j => exact ih slot j

/-- Behind a ready sink the data of a tail have moved one stage on. -/
theorem load_drop_ready (f : α → α) (up : Option α) (slots : List (Option α)) (j : ℕ) :
    load (slots.drop j) ≤ (deliver true up slots).toList.length +
      load ((chain false true f up slots).drop (j + 1)) := by
  induction slots generalizing up j with
  | nil => rw [List.drop_nil, load_nil]; exact Nat.zero_le _
  | cons slot slots ih =>
      cases j with
      | succ j => exact ih slot j
      | zero =>
          -- what leaves the first stage is what the rest is offered
          have hready : ready true slots = true := ready_iff.mpr (Or.inr rfl)
          have hload := load_chain true f slot slots
          rw [hready, if_pos rfl] at hload
          rw [List.drop_zero, load_cons, chain, List.drop_succ_cons, List.drop_zero, deliver]
          omega

/-! ## Runs -/

/-- An edge at which the slots of a machine move as those of a chain. -/
def Moves (slots : σ → List (Option α)) (sink : ι → Bool) (f : α → α) (up : ι → Option α)
    (e : Edge σ ι) : Prop :=
  slots e.after = chain false (sink e.input) f (up e.input) (slots e.before)

/-- What the chain delivers at an edge. -/
def delivery (slots : σ → List (Option α)) (sink : ι → Bool) (up : ι → Option α)
    (e : Edge σ ι) : Option α :=
  deliver (sink e.input) (up e.input) (slots e.before)

variable {step : σ → ι → Except ε σ} {slots : σ → List (Option α)} {sink : ι → Bool}
  {f : α → α} {up : ι → Option α}

theorem length_filterMap_cons {β : Type*} (d : β → Option α) (b : β) (l : List β) :
    ((b :: l).filterMap d).length = (d b).toList.length + (l.filterMap d).length := by
  cases hd : d b <;> simp [hd, Nat.add_comm]

/-- Enough ready edges for the stages still ahead deliver the whole tail. The
induction is on the edges; a ready one takes one stage off the tail. -/
theorem load_drop_le_delivered {is : List ι} {s : σ} {es : List (Edge σ ι)}
    (hrun : history step s is = .ok es) (hmoves : ∀ e ∈ es, Moves slots sink f up e) (j : ℕ)
    (hready : (slots s).length ≤ j + es.countP fun e => sink e.input) :
    load ((slots s).drop j) ≤ (es.filterMap (delivery slots sink up)).length := by
  induction is generalizing s es j with
  | nil =>
      rw [history_nil, Except.ok.injEq] at hrun
      subst hrun
      rw [List.countP_nil, Nat.add_zero] at hready
      rw [List.drop_eq_nil_of_le hready, load_nil]
      exact Nat.zero_le _
  | cons i is ih =>
      obtain ⟨s', fs, -, hfs, rfl⟩ := history_cons_ok hrun
      have hhead : slots s' = chain false (sink i) f (up i) (slots s) :=
        hmoves ⟨s, i, s'⟩ (List.mem_cons_self ..)
      have hlen : (slots s').length = (slots s).length := by rw [hhead, length_chain]
      have hrest := fun j => ih hfs (fun e he => hmoves e (List.mem_cons_of_mem _ he)) j
      rw [length_filterMap_cons, delivery]
      cases hsink : sink i with
      | false =>
          rw [List.countP_cons_of_neg (by simp [hsink])] at hready
          have hnow := load_drop_blocked f (up i) (slots s) j
          have hlater := hrest j (by omega)
          rw [hhead, hsink] at hlater
          omega
      | true =>
          rw [List.countP_cons_of_pos (by simpa using hsink)] at hready
          have hnow := load_drop_ready f (up i) (slots s) j
          have hlater := hrest (j + 1) (by omega)
          rw [hhead, hsink] at hlater
          show _ ≤ (deliver true (up i) (slots s)).toList.length + _
          omega

/-- The number of stages is kept. -/
theorem length_before {is : List ι} {s : σ} {es : List (Edge σ ι)}
    (hrun : history step s is = .ok es) (hmoves : ∀ e ∈ es, Moves slots sink f up e) :
    ∀ e ∈ es, (slots e.before).length = (slots s).length := by
  induction is generalizing s es with
  | nil =>
      rw [history_nil, Except.ok.injEq] at hrun
      subst hrun
      simp
  | cons i is ih =>
      obtain ⟨s', fs, -, hfs, rfl⟩ := history_cons_ok hrun
      have hhead : slots s' = chain false (sink i) f (up i) (slots s) :=
        hmoves ⟨s, i, s'⟩ (List.mem_cons_self ..)
      intro e he
      rcases List.mem_cons.mp he with rfl | he
      · rfl
      · rw [ih hfs (fun e he => hmoves e (List.mem_cons_of_mem _ he)) e he, hhead, length_chain]

/-- **Chains drain.** Over as many ready edges as there are stages, however many
others lie between, everything held at the start is delivered, in order and ahead
of anything else. -/
theorem drains {g : α → α} (hgf : ∀ a, g (f a) = a) {is : List ι} {s : σ} {es : List (Edge σ ι)}
    (hrun : history step s is = .ok es) (hmoves : ∀ e ∈ es, Moves slots sink f up e)
    (hready : (slots s).length ≤ es.countP fun e => sink e.input) :
    contents g (slots s) <+:
      (es.filterMap (delivery slots sink up)).map g^[(slots s).length] := by
  have hedges : ∀ e ∈ es, Conserves (fun s => contents g (slots s))
      (fun e => if ready (sink e.input) (slots e.before) then up e.input else none)
      (fun e => (delivery slots sink up e).map g^[(slots s).length]) e := by
    intro e he
    rw [Conserves, delivery, ← length_before hrun hmoves e he, hmoves e he]
    exact chain_conserves hgf (sink e.input) (up e.input) (slots e.before)
  have hcons := conserves_run hrun hedges
  rw [← List.map_filterMap] at hcons
  have hprefix := List.prefix_append (contents g (slots s))
    (es.filterMap fun e => if ready (sink e.input) (slots e.before) then up e.input else none)
  rw [hcons] at hprefix
  apply List.prefix_of_prefix_length_le hprefix (List.prefix_append ..)
  have hload := load_drop_le_delivered hrun hmoves 0 (by omega)
  rw [List.drop_zero] at hload
  rw [length_contents, List.length_map]
  exact hload

/-! ## A sink that is always ready -/

/-- What a chain is about to deliver, edge by edge, if nothing holds it up. -/
def ripe (f : α → α) : List (Option α) → List (Option α)
  | [] => []
  | slot :: slots => ripe f slots ++ [slot.map f^[slots.length]]

/-- One edge delivers the first of it and appends what is offered. -/
theorem ripe_chain (f : α → α) (up : Option α) (slots : List (Option α)) :
    deliver true up slots :: ripe f (chain false true f up slots) =
      ripe f slots ++ [up.map f^[slots.length]] := by
  induction slots generalizing up with
  | nil => cases up <;> rfl
  | cons slot slots ih =>
      have hready : ready true slots = true := ready_iff.mpr (Or.inr rfl)
      have hstage : stage false true f up slot = up.map f := by
        rw [stage, Bool.or_true]
        rfl
      have hmap : (up.map f).map f^[slots.length] = up.map f^[slots.length + 1] := by
        rw [Option.map_map]
        rfl
      rw [deliver, chain, hready, hstage, ripe, length_chain, hmap, ← List.cons_append, ih slot,
        ripe, List.length_cons]

/-- **A chain under a ready sink is a delay line.** What it delivers, edge by
edge, is what it held and then what it was offered, as late as it has stages. -/
theorem delay_line {is : List ι} {s : σ} {es : List (Edge σ ι)}
    (hrun : history step s is = .ok es) (hmoves : ∀ e ∈ es, Moves slots sink f up e)
    (hsink : ∀ e ∈ es, sink e.input = true) :
    es.map (delivery slots sink up) =
      (ripe f (slots s) ++ es.map fun e => (up e.input).map f^[(slots s).length]).take
        es.length := by
  induction is generalizing s es with
  | nil =>
      rw [history_nil, Except.ok.injEq] at hrun
      subst hrun
      rfl
  | cons i is ih =>
      obtain ⟨s', fs, -, hfs, rfl⟩ := history_cons_ok hrun
      have hi : sink i = true := hsink ⟨s, i, s'⟩ (List.mem_cons_self ..)
      have hhead : slots s' = chain false true f (up i) (slots s) := by
        have hmove := hmoves ⟨s, i, s'⟩ (List.mem_cons_self ..)
        rw [Moves] at hmove
        rw [← hi]
        exact hmove
      have hlen : (slots s').length = (slots s).length := by rw [hhead, length_chain]
      have hrest := ih hfs (fun e he => hmoves e (List.mem_cons_of_mem _ he))
        (fun e he => hsink e (List.mem_cons_of_mem _ he))
      have hstep := ripe_chain f (up i) (slots s)
      rw [List.map_cons, List.map_cons, hrest, delivery, hlen, List.append_cons, hhead, ← hstep, hi]
      rfl

end PipelineBench.Elastic
