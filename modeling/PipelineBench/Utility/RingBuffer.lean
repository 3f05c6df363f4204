import Mathlib.Data.Vector.Defs
import PipelineBench.Foundation.Checked
import PipelineBench.Foundation.Machine
import PipelineBench.Model.Signals

/-!
# The ring buffer

`utility::ring_buffer_t`: an array, the index of its first element, and the
number of elements. A method that throws leaves the buffer as it was; every
method gives back its result and the buffer after it. The index of the next free
cell is found without letting a `std::size_t` wrap.
-/

namespace PipelineBench.Utility

open Machine

/-- What a method throws. The text of `std::out_of_range` is the library's. -/
inductive StdException where
  | overflowError (what : String)
  | underflowError (what : String)
  | outOfRange
  deriving DecidableEq, Repr

/-- `ring_buffer_t<element_t, N>`. -/
structure RingBuffer (α : Type*) (N : SizeT) where
  m_body : Vector α N.toNat
  m_first : SizeT
  m_size : SizeT
  deriving DecidableEq, Repr

variable {α : Type*} {N : SizeT}

namespace RingBuffer

/-- The constructor: every cell holds the value `element_t{}`. -/
def fresh [Inhabited α] : RingBuffer α N := ⟨Vector.replicate N.toNat default, 0, 0⟩

def isEmpty (b : RingBuffer α N) : Bool := b.m_size == 0

def empty (b : RingBuffer α N) : Bool := b.isEmpty

def isFull (b : RingBuffer α N) : Bool := b.m_size == N

def size (b : RingBuffer α N) : SizeT := b.m_size

def clear (b : RingBuffer α N) : RingBuffer α N := { b with m_size := 0 }

/-- First free element beyond the used ones. -/
def firstFree (b : RingBuffer α N) : SizeT :=
  if b.m_first < N - b.m_size then b.m_first + b.m_size
  else b.m_size - (N - b.m_first)

/-- The next first index, wrapping at the end. -/
def nextFirst (b : RingBuffer α N) : SizeT :=
  if b.m_first == N - 1 then 0 else b.m_first + 1

/-- `m_body.at(m_first)`. -/
def atFirst (b : RingBuffer α N) : Except StdException α :=
  match b.m_body[b.m_first.toNat]? with
  | some a => .ok a
  | none => .error .outOfRange

def get (b : RingBuffer α N) : Except StdException α × RingBuffer α N :=
  if b.isEmpty then (.error (.underflowError "ring_buffer_t::get(): empty."), b)
  else
    match b.atFirst with
    | .error e => (.error e, b)
    | .ok a => (.ok a, { b with m_first := b.nextFirst, m_size := b.m_size - 1 })

def pop (b : RingBuffer α N) : Except StdException α × RingBuffer α N := b.get

/-- Both overloads of `peek`, which differ in their text. -/
def peekWith (what : String) (b : RingBuffer α N) : Except StdException α :=
  if b.isEmpty then .error (.underflowError what) else b.atFirst

def peek (b : RingBuffer α N) : Except StdException α :=
  b.peekWith "ring_buffer_t::peek(): empty."

def peekConst (b : RingBuffer α N) : Except StdException α :=
  b.peekWith "ring_buffer_t::peek() const: empty."

def front (b : RingBuffer α N) : Except StdException α := b.peek

def frontConst (b : RingBuffer α N) : Except StdException α := b.peekConst

/-- Both overloads of `put`. -/
def putWith (what : String) (b : RingBuffer α N) (value : α) :
    Except StdException Unit × RingBuffer α N :=
  if b.isFull then (.error (.overflowError what), b)
  else if h : b.firstFree.toNat < N.toNat then
    (.ok (), { b with m_body := b.m_body.set b.firstFree.toNat value h, m_size := b.m_size + 1 })
  else (.error .outOfRange, b)

def put (b : RingBuffer α N) (value : α) : Except StdException Unit × RingBuffer α N :=
  b.putWith "ring_buffer_t::put() [copy]: full." value

def putMove (b : RingBuffer α N) (value : α) : Except StdException Unit × RingBuffer α N :=
  b.putWith "ring_buffer_t::put() [move]: full." value

def push (b : RingBuffer α N) (value : α) : Except StdException Unit × RingBuffer α N :=
  b.put value

def pushMove (b : RingBuffer α N) (value : α) : Except StdException Unit × RingBuffer α N :=
  b.putMove value

/-- `this->swap(that)`, the two buffers in that order. -/
def swap (this that : RingBuffer α N) : RingBuffer α N × RingBuffer α N :=
  ({ m_body := that.m_body, m_first := that.m_first, m_size := that.m_size },
    { m_body := this.m_body, m_first := this.m_first, m_size := this.m_size })

end RingBuffer

/-! ## Calls on two buffers -/

/-- A call of one buffer. -/
inductive Call (α : Type*) where
  | put (value : α)
  | putMove (value : α)
  | push (value : α)
  | pushMove (value : α)
  | get
  | pop
  | peek
  | peekConst
  | front
  | frontConst
  | clear
  | size
  | isEmpty
  | empty
  | isFull
  deriving DecidableEq, Repr

/-- A call of either buffer, or of its `swap` with the other one. -/
inductive BufferCall (α : Type*) where
  | on (this : Bool) (call : Call α)
  | swap (this : Bool)
  deriving DecidableEq, Repr

/-- What a call gives back. -/
inductive Answer (α : Type*) where
  | done
  | element (a : α)
  | count (n : ℕ)
  | flag (b : Bool)
  deriving DecidableEq, Repr

/-- One call of a buffer. -/
def RingBuffer.call (b : RingBuffer α N) : Call α → Except StdException (Answer α) × RingBuffer α N
  | .put value => ((b.put value).1.map fun _ => .done, (b.put value).2)
  | .putMove value => ((b.putMove value).1.map fun _ => .done, (b.putMove value).2)
  | .push value => ((b.push value).1.map fun _ => .done, (b.push value).2)
  | .pushMove value => ((b.pushMove value).1.map fun _ => .done, (b.pushMove value).2)
  | .get => (b.get.1.map .element, b.get.2)
  | .pop => (b.pop.1.map .element, b.pop.2)
  | .peek => (b.peek.map .element, b)
  | .peekConst => (b.peekConst.map .element, b)
  | .front => (b.front.map .element, b)
  | .frontConst => (b.frontConst.map .element, b)
  | .clear => (.ok .done, b.clear)
  | .size => (.ok (.count b.size.toNat), b)
  | .isEmpty => (.ok (.flag b.isEmpty), b)
  | .empty => (.ok (.flag b.empty), b)
  | .isFull => (.ok (.flag b.isFull), b)

/-- One call of the two buffers. -/
def RingBuffer.step (bs : Bool → RingBuffer α N) :
    BufferCall α → Except StdException (Answer α) × (Bool → RingBuffer α N)
  | .on this c => (((bs this).call c).1, Function.update bs this ((bs this).call c).2)
  | .swap this =>
      (.ok .done, Function.update (Function.update bs this ((bs this).swap (bs (!this))).1) (!this)
        ((bs this).swap (bs (!this))).2)

/-! ## The indices -/

namespace RingBuffer

theorem toNat_firstFree {b : RingBuffer α N} (hfirst : b.m_first < N) (hsize : b.m_size ≤ N) :
    b.firstFree.toNat = (b.m_first.toNat + b.m_size.toNat) % N.toNat := by
  rw [BitVec.lt_def] at hfirst
  rw [BitVec.le_def] at hsize
  have hN := N.isLt
  unfold firstFree
  by_cases hwrap : b.m_first.toNat + b.m_size.toNat < N.toNat
  · rw [if_pos (by rw [BitVec.lt_def]; bv_omega), Nat.mod_eq_of_lt hwrap]
    bv_omega
  · -- the source subtracts before it adds, so that nothing wraps at `2 ^ 64`
    have hmod : (b.m_first.toNat + b.m_size.toNat) % N.toNat =
        b.m_first.toNat + b.m_size.toNat - N.toNat := by
      rw [Nat.mod_eq_sub_mod (by omega), Nat.mod_eq_of_lt (by omega)]
    rw [if_neg (by bv_omega), hmod]
    bv_omega

theorem toNat_nextFirst {b : RingBuffer α N} (hfirst : b.m_first < N) :
    b.nextFirst.toNat = (b.m_first.toNat + 1) % N.toNat := by
  rw [BitVec.lt_def] at hfirst
  have hN := N.isLt
  unfold nextFirst
  by_cases hlast : b.m_first = N - 1
  · rw [if_pos (by rw [hlast]; exact beq_self_eq_true _)]
    have hsucc : b.m_first.toNat + 1 = N.toNat := by bv_omega
    rw [hsucc, Nat.mod_self]
    rfl
  · rw [if_neg (by simpa using hlast), Nat.mod_eq_of_lt (by bv_omega)]
    bv_omega

theorem firstFree_lt {b : RingBuffer α N} (hfirst : b.m_first < N) (hsize : b.m_size ≤ N) :
    b.firstFree < N := by
  rw [BitVec.lt_def, toNat_firstFree hfirst hsize]
  exact Nat.mod_lt _ (Nat.zero_lt_of_lt hfirst)

theorem nextFirst_lt {b : RingBuffer α N} (hfirst : b.m_first < N) : b.nextFirst < N := by
  rw [BitVec.lt_def, toNat_nextFirst hfirst]
  exact Nat.mod_lt _ (Nat.zero_lt_of_lt hfirst)

/-- Taking the first element out leaves the first free cell where it was. -/
theorem firstFree_advance {b : RingBuffer α N} (hfirst : b.m_first < N) (hsize : b.m_size ≤ N)
    (hsome : 0 < b.m_size) :
    ({ b with m_first := b.nextFirst, m_size := b.m_size - 1 } : RingBuffer α N).firstFree =
      b.firstFree := by
  have hpred : (b.m_size - 1).toNat = b.m_size.toNat - 1 := by bv_omega
  have hle : b.m_size - 1 ≤ N := by bv_omega
  apply BitVec.eq_of_toNat_eq
  rw [toNat_firstFree hfirst hsize]
  refine (toNat_firstFree (b := { b with m_first := b.nextFirst, m_size := b.m_size - 1 })
    (nextFirst_lt hfirst) hle).trans ?_
  show (b.nextFirst.toNat + (b.m_size - 1).toNat) % N.toNat = _
  rw [toNat_nextFirst hfirst, hpred, Nat.mod_add_mod]
  congr 1
  bv_omega

/-! ## No wrap -/

/-- `first_free()` with every sum and difference checked. -/
def firstFreeChecked (b : RingBuffer α N) : Option SizeT := do
  let limit ← Checked.sub N b.m_size
  if b.m_first < limit then Checked.add b.m_first b.m_size
  else
    let back ← Checked.sub N b.m_first
    Checked.sub b.m_size back

/-- `next_first()` with every sum and difference checked. -/
def nextFirstChecked (b : RingBuffer α N) : Option SizeT := do
  let last ← Checked.sub N 1
  if b.m_first == last then some 0 else Checked.add b.m_first 1

theorem firstFreeChecked_eq {b : RingBuffer α N} (hfirst : b.m_first < N) (hsize : b.m_size ≤ N) :
    b.firstFreeChecked = some b.firstFree := by
  rw [BitVec.lt_def] at hfirst
  rw [BitVec.le_def] at hsize
  have hN := N.isLt
  have hlimit := Checked.sub_eq_some hsize
  have hback := Checked.sub_eq_some (Nat.le_of_lt hfirst)
  unfold firstFreeChecked firstFree
  rw [hlimit.1, Option.bind_eq_bind, Option.bind_some]
  by_cases hwrap : b.m_first < N - b.m_size
  · rw [if_pos hwrap, if_pos hwrap]
    rw [BitVec.lt_def, hlimit.2] at hwrap
    exact (Checked.add_eq_some (by omega)).1
  · rw [if_neg hwrap, if_neg hwrap, hback.1, Option.bind_some]
    rw [BitVec.lt_def, hlimit.2] at hwrap
    exact (Checked.sub_eq_some (by rw [hback.2]; omega)).1

theorem nextFirstChecked_eq {b : RingBuffer α N} (hfirst : b.m_first < N) :
    b.nextFirstChecked = some b.nextFirst := by
  rw [BitVec.lt_def] at hfirst
  have hN := N.isLt
  have hlast := Checked.sub_eq_some (show (1 : SizeT).toNat ≤ N.toNat from Nat.zero_lt_of_lt hfirst)
  unfold nextFirstChecked nextFirst
  rw [hlast.1, Option.bind_eq_bind, Option.bind_some]
  by_cases hwrap : (b.m_first == N - 1) = true
  · rw [if_pos hwrap, if_pos hwrap]
  · rw [if_neg hwrap, if_neg hwrap]
    refine (Checked.add_eq_some ?_).1
    show b.m_first.toNat + 1 < _
    omega

/-- **The index arithmetic never wraps.** Every intermediate value is in range,
the two indices are the sums modulo `N`, and taking an element out leaves the
first free cell where it was. -/
theorem ring_indices_never_wrap {b : RingBuffer α N} (hfirst : b.m_first < N)
    (hsize : b.m_size ≤ N) :
    b.firstFreeChecked = some b.firstFree ∧
      b.nextFirstChecked = some b.nextFirst ∧
      b.firstFree.toNat = (b.m_first.toNat + b.m_size.toNat) % N.toNat ∧
      b.firstFree < N ∧
      b.nextFirst.toNat = (b.m_first.toNat + 1) % N.toNat ∧
      (0 < b.m_size →
        Checked.sub b.m_size 1 = some (b.m_size - 1) ∧
        ({ b with m_first := b.nextFirst, m_size := b.m_size - 1 } : RingBuffer α N).firstFree =
          b.firstFree) := by
  refine ⟨firstFreeChecked_eq hfirst hsize, nextFirstChecked_eq hfirst,
    toNat_firstFree hfirst hsize, firstFree_lt hfirst hsize, toNat_nextFirst hfirst, ?_⟩
  intro hsome
  have hone : (1 : SizeT).toNat ≤ b.m_size.toNat := hsome
  exact ⟨(Checked.sub_eq_some hone).1, firstFree_advance hfirst hsize hsome⟩

/-- The largest array, full, its first element in the last cell. -/
theorem ring_indices_never_wrap_largest :
    let b : RingBuffer Unit 0xFFFFFFFFFFFFFFFF :=
      ⟨Vector.replicate _ (), 0xFFFFFFFFFFFFFFFE, 0xFFFFFFFFFFFFFFFF⟩
    b.firstFreeChecked = some b.firstFree ∧ b.nextFirstChecked = some b.nextFirst ∧
      b.firstFree < 0xFFFFFFFFFFFFFFFF := by
  intro b
  have hfirst : b.m_first < 0xFFFFFFFFFFFFFFFF := by decide
  have hsize : b.m_size ≤ 0xFFFFFFFFFFFFFFFF := by decide
  have hindices := ring_indices_never_wrap hfirst hsize
  exact ⟨hindices.1, hindices.2.1, hindices.2.2.2.1⟩

end RingBuffer

end PipelineBench.Utility
