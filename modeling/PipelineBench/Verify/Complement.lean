import PipelineBench.Uvm.Driver
import PipelineBench.Verify.Conservation

/-!
# Driver and module cancel each other's complement

The driver sends the complement of an item's binary as its data value, and the
module complements what it takes. The three output registers move together, so
they always show one item: the last one taken.
-/

namespace PipelineBench.Complement

open Run SingleCycle Conservation Driver

/-- What the registers show once an item has been taken: the binary sent for it
in both places, and its number. -/
def shows (item : Request) : Datum :=
  let debug := (itemDispatch item .powerUp).debug
  ⟨debug.i_binary, debug.i_binary, debug.i_number⟩

/-- The items the module consumed at an edge that takes its inputs, in order. -/
def taken (edges : List (Edge MutOutput MutInput)) (items : List Request) : List Request :=
  ((edges.zip items).filter fun p => decide (Advances p.1.before p.1.input)).map Prod.snd

/-- The module restores the binary the driver complemented. -/
theorem complement_presented (item : Request) :
    (presented (itemDispatch item .powerUp)).complement = shows item := by
  unfold presented Datum.complement shows
  rw [itemDispatch_data]

theorem taken_cons (e : Edge MutOutput MutInput) (edges : List (Edge MutOutput MutInput))
    (item : Request) (items : List Request) :
    taken (e :: edges) (item :: items) =
      if Advances e.before e.input then item :: taken edges items else taken edges items := by
  unfold taken
  rw [List.zip_cons_cons, List.filter_cons]
  by_cases hadv : Advances e.before e.input
  · simp [hadv]
  · simp [hadv]

theorem getLast?_map_getD {α β : Type*} (f : α → β) (a : α) (l : List α) (b : β) :
    ((a :: l).getLast?.map f).getD b = (l.getLast?.map f).getD (f a) := by
  cases l with
  | nil => rfl
  | cons c l =>
      rw [List.getLast?_cons_cons]
      cases hl : (c :: l).getLast? with
      | none => simp at hl
      | some d => rfl

/-- From any state, the registers show the last item taken or what they held. -/
theorem registers_of_taken {out : MutOutput} (hun : Unstalled out) (items : List Request) :
    ∃ edges, history edge out (driven items) = .ok edges ∧
      ∀ n, registers (final out (edges.take n)) =
        ((taken (edges.take n) items).getLast?.map shows).getD (registers out) := by
  induction items generalizing out with
  | nil =>
      refine ⟨[], rfl, ?_⟩
      intro n
      rw [List.take_nil]
      rfl
  | cons item items ih =>
      obtain ⟨out', hedge, hspec⟩ := edge_spec (itemDispatch item .powerUp) hun
      obtain ⟨edges, hrun, hregs⟩ := ih hspec.is_stall
      refine ⟨_, history_cons hedge hrun, ?_⟩
      intro n
      cases n with
      | zero => rfl
      | succ n =>
          rw [List.take_succ_cons, final_cons, hregs n, taken_cons, registers_after hspec]
          -- a later item taken hides this one, which hides what was held before
          by_cases hadv : Advances out (itemDispatch item .powerUp)
          · rw [if_pos hadv, if_pos hadv, getLast?_map_getD, complement_presented]
          · rw [if_neg hadv, if_neg hadv]

/-- **The complements cancel.** After every edge of a run of the initialised
module on driven items, value, binary and number are those sent for the last
item taken, or zero where there is none yet; value and binary are always equal. -/
theorem complements_cancel (items : List Request) :
    ∃ edges, history edge initialised (dispatchAll .powerUp items) = .ok edges ∧
      edges.length = items.length ∧
      ∀ n,
        registers (final initialised (edges.take n)) =
          ((taken (edges.take n) items).getLast?.map shows).getD ⟨0, 0, 0⟩ ∧
        (final initialised (edges.take n)).data.value =
          (final initialised (edges.take n)).debug.i_binary := by
  rw [dispatchAll_eq]
  obtain ⟨edges, hrun, hregs⟩ := registers_of_taken initialised_unstalled items
  refine ⟨edges, hrun, ?_, ?_⟩
  · rw [history_length hrun, driven, List.length_map]
  · intro n
    have hn := hregs n
    refine ⟨hn, ?_⟩
    show (registers (final initialised (edges.take n))).value =
      (registers (final initialised (edges.take n))).i_binary
    rw [hn]
    cases (taken (edges.take n) items).getLast? with
    | none => rfl
    | some item => rfl

end PipelineBench.Complement
