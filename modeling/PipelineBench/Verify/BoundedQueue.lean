import Mathlib.Data.Nat.ModEq
import PipelineBench.Utility.RingBuffer

/-!
# The ring buffer is a bounded queue

Two lists of at most `N` elements answer every list of calls the way two ring
buffers do. `Represents` places the elements of the list around the array,
from `m_first` on; each method has one lemma that carries it.
-/

namespace PipelineBench.Utility

open Machine

variable {α : Type*} {N : SizeT}

/-! ## The two lists -/

/-- Why a queue refuses a call. -/
inductive Refusal where
  | full
  | empty
  deriving DecidableEq, Repr

namespace Queue

def put (n : ℕ) (q : List α) (value : α) : Except Refusal (Answer α) × List α :=
  if q.length = n then (.error .full, q) else (.ok .done, q ++ [value])

def get : List α → Except Refusal (Answer α) × List α
  | [] => (.error .empty, [])
  | a :: q => (.ok (.element a), q)

def peek : List α → Except Refusal (Answer α)
  | [] => .error .empty
  | a :: _ => .ok (.element a)

/-- One call of a list of at most `n` elements. -/
def call (n : ℕ) (q : List α) : Call α → Except Refusal (Answer α) × List α
  | .put value | .putMove value | .push value | .pushMove value => put n q value
  | .get | .pop => get q
  | .peek | .peekConst | .front | .frontConst => (peek q, q)
  | .clear => (.ok .done, [])
  | .size => (.ok (.count q.length), q)
  | .isEmpty | .empty => (.ok (.flag (decide (q = []))), q)
  | .isFull => (.ok (.flag (decide (q.length = n))), q)

/-- One call of two lists. -/
def step (n : ℕ) (qs : Bool → List α) :
    BufferCall α → Except Refusal (Answer α) × (Bool → List α)
  | .on this c => ((call n (qs this) c).1, Function.update qs this (call n (qs this) c).2)
  | .swap _ => (.ok .done, fun b => qs (!b))

end Queue

/-! ## The representation -/

/-- The buffer holds the elements of `q`, in order, from `m_first` around. -/
structure Represents (b : RingBuffer α N) (q : List α) : Prop where
  first_lt : b.m_first < N
  size_le : b.m_size ≤ N
  size_eq : b.m_size.toNat = q.length
  cells : ∀ k < q.length, b.m_body[(b.m_first.toNat + k) % N.toNat]? = q[k]?

/-- A throw for a refusal of its kind; no `std::out_of_range`. -/
inductive Matches : Except StdException (Answer α) → Except Refusal (Answer α) → Prop
  | answer (a : Answer α) : Matches (.ok a) (.ok a)
  | overflow (what : String) : Matches (.error (.overflowError what)) (.error .full)
  | underflow (what : String) : Matches (.error (.underflowError what)) (.error .empty)

namespace Represents

variable {b : RingBuffer α N} {q : List α}

theorem length_le (h : Represents b q) : q.length ≤ N.toNat := by
  rw [← h.size_eq]
  exact h.size_le

theorem isEmpty_iff (h : Represents b q) : b.isEmpty = true ↔ q = [] := by
  unfold RingBuffer.isEmpty
  rw [beq_iff_eq, ← BitVec.toNat_inj, h.size_eq]
  exact List.length_eq_zero_iff

theorem isEmpty_cons {a : α} (h : Represents b (a :: q)) : ¬ b.isEmpty = true := by
  rw [h.isEmpty_iff]
  exact List.cons_ne_nil a q

theorem isFull_iff (h : Represents b q) : b.isFull = true ↔ q.length = N.toNat := by
  unfold RingBuffer.isFull
  rw [beq_iff_eq, ← BitVec.toNat_inj, h.size_eq]

theorem fresh [Inhabited α] (hN : 0 < N) : Represents (.fresh : RingBuffer α N) [] where
  first_lt := hN
  size_le := Nat.zero_le _
  size_eq := rfl
  cells := by
    intro k hk
    exact absurd hk (Nat.not_lt_zero k)

theorem clear (h : Represents b q) : Represents b.clear [] where
  first_lt := h.first_lt
  size_le := Nat.zero_le _
  size_eq := rfl
  cells := by
    intro k hk
    exact absurd hk (Nat.not_lt_zero k)

/-- The element read at `m_first` is the head. -/
theorem atFirst {a : α} (h : Represents b (a :: q)) : b.atFirst = .ok a := by
  have hcell := h.cells 0 (Nat.succ_pos _)
  have hfirst : b.m_first.toNat < N.toNat := h.first_lt
  rw [Nat.add_zero, Nat.mod_eq_of_lt hfirst, List.getElem?_cons_zero] at hcell
  unfold RingBuffer.atFirst
  rw [hcell]

/-- Moving `m_first` past the head leaves the tail. -/
theorem advance {a : α} (h : Represents b (a :: q)) :
    Represents { b with m_first := b.nextFirst, m_size := b.m_size - 1 } q where
  first_lt := RingBuffer.nextFirst_lt h.first_lt
  size_le := by
    have hsize : b.m_size.toNat = q.length + 1 := h.size_eq
    have hle := h.size_le
    show b.m_size - 1 ≤ N
    bv_omega
  size_eq := by
    have hsize : b.m_size.toNat = q.length + 1 := h.size_eq
    show (b.m_size - 1).toNat = q.length
    bv_omega
  cells := by
    intro k hk
    -- the element at `k` of the tail stood at `k + 1`
    have hcell := h.cells (k + 1) (Nat.succ_lt_succ hk)
    show b.m_body[(b.nextFirst.toNat + k) % N.toNat]? = q[k]?
    rw [RingBuffer.toNat_nextFirst h.first_lt, Nat.mod_add_mod, ← List.getElem?_cons_succ,
      ← hcell, Nat.add_assoc, Nat.add_comm 1 k]

/-- Two elements less than `N` apart lie in different cells. -/
theorem cell_ne {first j k n : ℕ} (hjk : j < k) (hk : k < n) :
    (first + j) % n ≠ (first + k) % n := by
  intro heq
  have hmod : Nat.ModEq n j k := Nat.ModEq.add_left_cancel' first heq
  rw [Nat.ModEq, Nat.mod_eq_of_lt (by omega), Nat.mod_eq_of_lt hk] at hmod
  omega

/-- Writing the first free cell appends at the back. -/
theorem append (h : Represents b q) (hroom : q.length < N.toNat) (value : α)
    (hlt : b.firstFree.toNat < N.toNat) :
    Represents { b with m_body := b.m_body.set b.firstFree.toNat value hlt,
                        m_size := b.m_size + 1 } (q ++ [value]) where
  first_lt := h.first_lt
  size_le := by
    have hsize := h.size_eq
    show b.m_size + 1 ≤ N
    bv_omega
  size_eq := by
    have hN := N.isLt
    have hsize := h.size_eq
    show (b.m_size + 1).toNat = (q ++ [value]).length
    rw [List.length_append, List.length_singleton]
    bv_omega
  cells := by
    intro k hk
    rw [List.length_append, List.length_singleton] at hk
    have hfree : b.firstFree.toNat = (b.m_first.toNat + q.length) % N.toNat := by
      rw [RingBuffer.toNat_firstFree h.first_lt h.size_le, h.size_eq]
    show (b.m_body.set b.firstFree.toNat value hlt)[(b.m_first.toNat + k) % N.toNat]? = _
    rcases Nat.lt_succ_iff_lt_or_eq.mp hk with hlow | rfl
    · -- an older element: its cell is not the one written
      have hne : b.firstFree.toNat ≠ (b.m_first.toNat + k) % N.toNat := by
        rw [hfree]
        exact (cell_ne hlow hroom).symm
      rw [Vector.getElem?_set_ne _ hne, h.cells k hlow, List.getElem?_append_left hlow]
    · -- the new element is last
      rw [← hfree, Vector.getElem?_set_self, List.getElem?_append_right (Nat.le_refl _),
        Nat.sub_self]
      rfl

/-! ## One call, every call -/

theorem get_represents (h : Represents b q) :
    Matches (b.get.1.map .element) (Queue.get q).1 ∧ Represents b.get.2 (Queue.get q).2 := by
  unfold RingBuffer.get
  cases q with
  | nil =>
      rw [if_pos (h.isEmpty_iff.mpr rfl)]
      exact ⟨.underflow _, h⟩
  | cons a q =>
      rw [if_neg h.isEmpty_cons, h.atFirst]
      exact ⟨.answer _, h.advance⟩

theorem peekWith_represents (h : Represents b q) (what : String) :
    Matches ((b.peekWith what).map .element) (Queue.peek q) := by
  unfold RingBuffer.peekWith
  cases q with
  | nil =>
      rw [if_pos (h.isEmpty_iff.mpr rfl)]
      exact .underflow _
  | cons a q =>
      rw [if_neg h.isEmpty_cons, h.atFirst]
      exact .answer _

theorem putWith_represents (h : Represents b q) (what : String) (value : α) :
    Matches ((b.putWith what value).1.map fun _ => .done) (Queue.put N.toNat q value).1 ∧
      Represents (b.putWith what value).2 (Queue.put N.toNat q value).2 := by
  unfold RingBuffer.putWith Queue.put
  by_cases hfull : q.length = N.toNat
  · rw [if_pos (h.isFull_iff.mpr hfull), if_pos hfull]
    exact ⟨.overflow _, h⟩
  · have hroom : q.length < N.toNat := Nat.lt_of_le_of_ne h.length_le hfull
    have hlt : b.firstFree.toNat < N.toNat := RingBuffer.firstFree_lt h.first_lt h.size_le
    rw [if_neg (by rwa [h.isFull_iff]), if_neg hfull, dif_pos hlt]
    exact ⟨.answer _, h.append hroom value hlt⟩

/-- One call of a buffer answers as the queue does. -/
theorem call_represents (h : Represents b q) (c : Call α) :
    Matches (b.call c).1 (Queue.call N.toNat q c).1 ∧
      Represents (b.call c).2 (Queue.call N.toNat q c).2 := by
  have hflagEmpty : b.isEmpty = decide (q = []) := by
    rw [Bool.eq_iff_iff, h.isEmpty_iff, decide_eq_true_iff]
  have hflagFull : b.isFull = decide (q.length = N.toNat) := by
    rw [Bool.eq_iff_iff, h.isFull_iff, decide_eq_true_iff]
  cases c with
  | put value => exact h.putWith_represents _ value
  | putMove value => exact h.putWith_represents _ value
  | push value => exact h.putWith_represents _ value
  | pushMove value => exact h.putWith_represents _ value
  | get => exact h.get_represents
  | pop => exact h.get_represents
  | peek => exact ⟨h.peekWith_represents _, h⟩
  | peekConst => exact ⟨h.peekWith_represents _, h⟩
  | front => exact ⟨h.peekWith_represents _, h⟩
  | frontConst => exact ⟨h.peekWith_represents _, h⟩
  | clear => exact ⟨.answer _, h.clear⟩
  | size =>
      show Matches (.ok (.count b.m_size.toNat)) _ ∧ _
      rw [h.size_eq]
      exact ⟨.answer _, h⟩
  | isEmpty =>
      show Matches (.ok (.flag b.isEmpty)) _ ∧ _
      rw [hflagEmpty]
      exact ⟨.answer _, h⟩
  | empty =>
      show Matches (.ok (.flag b.isEmpty)) _ ∧ _
      rw [hflagEmpty]
      exact ⟨.answer _, h⟩
  | isFull =>
      show Matches (.ok (.flag b.isFull)) _ ∧ _
      rw [hflagFull]
      exact ⟨.answer _, h⟩

end Represents

theorem step_simulates : Simulates (RingBuffer.step (α := α) (N := N)) (Queue.step N.toNat)
    (fun bs qs => ∀ b, Represents (bs b) (qs b)) Matches := by
  intro bs qs o hrel
  cases o with
  | on this c =>
      obtain ⟨hanswer, hnext⟩ := (hrel this).call_represents c
      refine ⟨hanswer, ?_⟩
      intro b
      by_cases hb : b = this
      · subst hb
        simp only [RingBuffer.step, Queue.step, Function.update_self]
        exact hnext
      · simp only [RingBuffer.step, Queue.step, Function.update_of_ne hb]
        exact hrel b
  | swap this =>
      refine ⟨.answer _, ?_⟩
      intro b
      -- either buffer may be the one called; the effect is the same
      cases this <;> cases b
      all_goals exact hrel _

/-- **The ring buffer is a bounded queue.** Two fresh buffers answer every list
of calls as two empty lists of at most `N` elements do, and hold the same
elements in the same order; no access is out of range. -/
theorem ring_buffer_refines_queue [Inhabited α] (hN : 0 < N) (calls : List (BufferCall α)) :
    List.Forall₂ Matches (answers (RingBuffer.step (α := α) (N := N)) (fun _ => .fresh) calls)
        (answers (Queue.step N.toNat) (fun _ => []) calls) ∧
      (∀ r ∈ answers (RingBuffer.step (α := α) (N := N)) (fun _ => .fresh) calls,
        r ≠ .error .outOfRange) ∧
      ∀ b, Represents (after (RingBuffer.step (α := α) (N := N)) (fun _ => .fresh) calls b)
        (after (Queue.step N.toNat) (fun _ => []) calls b) := by
  have hfresh : ∀ _ : Bool, Represents (.fresh : RingBuffer α N) [] := fun _ => .fresh hN
  obtain ⟨hanswers, hend⟩ := run_simulates step_simulates hfresh calls
  refine ⟨hanswers, ?_, hend⟩
  have hboth : List.Forall₂ (fun r r' => r ≠ .error .outOfRange ∧ Matches r r')
      (answers (RingBuffer.step (α := α) (N := N)) (fun _ => .fresh) calls)
      (answers (Queue.step N.toNat) (fun _ => []) calls) := by
    apply hanswers.imp
    intro r r' hmatch
    refine ⟨?_, hmatch⟩
    rintro rfl
    cases hmatch
  exact ((List.forall₂_and_left _ _).mp hboth).1

/-- Two cells: the second `put` wraps, the third throws, the buffers change
places. -/
theorem ring_buffer_refines_queue_wrapped :
    let calls : List (BufferCall ℕ) :=
      [.on true (.put 1), .on true .get, .on true (.push 2), .on true (.putMove 3),
        .on true (.put 4), .swap true, .on false .front, .on true .pop]
    List.Forall₂ Matches (answers (RingBuffer.step (N := 2)) (fun _ => .fresh) calls)
        (answers (Queue.step 2) (fun _ => []) calls) ∧
      (∀ r ∈ answers (RingBuffer.step (N := 2)) (fun _ => .fresh) calls,
        r ≠ .error .outOfRange) ∧
      ∀ b, Represents (after (RingBuffer.step (N := 2)) (fun _ => .fresh) calls b)
        (after (Queue.step 2) (fun _ => []) calls b) :=
  ring_buffer_refines_queue (by decide) _

example :
    answers (RingBuffer.step (N := 2)) (fun _ => .fresh)
      [.on true (.put 1), .on true .get, .on true (.push 2), .on true (.putMove 3),
        .on true (.put 4), .swap true, .on false .front, .on true .pop] =
      [.ok .done, .ok (.element 1), .ok .done, .ok .done,
        .error (.overflowError "ring_buffer_t::put() [copy]: full."), .ok .done, .ok (.element 2),
        .error (.underflowError "ring_buffer_t::get(): empty.")] := by
  rfl

end PipelineBench.Utility
