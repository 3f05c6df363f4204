import PipelineBench.Model.Format
import PipelineBench.Uvm.Request

/-!
# The test sequences

`sequence.h`: `do_body` of each sequence as the list of items it hands to
`send_item`, which randomises each one as it goes out. An item that is sent
again is randomised again, so only the kind of request it holds is carried over.
-/

namespace PipelineBench.Sequence

open Request

/-! ## `do_body` -/

/-- `repeat_t`: default items, which hold a reset request. -/
def repeatBody (count : ℕ) : List Request := List.replicate count .reset

section AllControlPairs

-- what the string constructor of `binary` finds beyond its literal
variable (beyond : ℕ → Char)

def bit_count : ℕ := 5

def bit_mask : Unsigned := ~~~((~~~(0 : Unsigned)) <<< bit_count)

def sequence_cycles : ℕ := 2

def sequence_bits : ℕ := bit_count * sequence_cycles

def sequence_count : ℕ := 1 <<< sequence_bits

/-- The control bits of one cycle, high order bits first. -/
def pairBits (sequence : Unsigned) (cycle : ℕ) : Unsigned :=
  let block := sequence_cycles - cycle - 1
  let shift := block * bit_count
  let raw := sequence >>> shift
  bit_mask &&& raw

def pairPrefix (sequence : Unsigned) (cycle : ℕ) : String :=
  "SEQUENCE " ++ String.ofList (Format.binary beyond 32 sequence.toNat sequence_bits) ++
    ": cycle (" ++ toString (cycle + 1) ++ "/" ++ toString sequence_cycles ++
    "), bits(" ++
    String.ofList (Format.binary beyond 32 (pairBits sequence cycle).toNat bit_count) ++ ")"

/-- `0x01 bitand (bits >> k)`, converted to `bool`. -/
def controlBit (bits : Unsigned) (k : ℕ) : Bool := (0x01 &&& (bits >>> k)) != 0

def pairRequest (sequence : Unsigned) (cycle : ℕ) : ValueFixed :=
  let bits := pairBits sequence cycle
  (ValueFixed.fresh.setPrefix (pairPrefix beyond sequence cycle)).setControl
    (controlBit bits 4) (controlBit bits 3) (controlBit bits 2) (controlBit bits 1)
    (controlBit bits 0)

/-- One iteration: all two-cycle combinations of the control bits. -/
def pairItems : List Request :=
  (List.range sequence_count).flatMap fun sequence =>
    (List.range sequence_cycles).map fun cycle =>
      .valueFixed (pairRequest beyond (BitVec.ofNat 32 sequence) cycle)

def allControlPairsBody (count : ℕ) : List Request :=
  (List.range count).flatMap (fun _ => pairItems beyond) ++ [.hold, .hold]

end AllControlPairs

def randomWeightedBody (count : ℕ) : List Request :=
  [.reset, .reset] ++ List.replicate count (.randomWeighted .fresh) ++ [.hold, .hold]

def randomLoopBody (count : ℕ) : List Request :=
  [.reset, .reset] ++ List.replicate count (.randomWeighted .fresh) ++ [.hold, .hold]

/-- Clocks a value into the module. -/
def clockIn : ValueFixed :=
  ((ValueFixed.fresh.setControl true false false false true).setInstruction
    0xE1000000 0xE8000000).setPrefix "IS_VALID(1) with IS_ADVANCE(0)"

def flushWAdvanceNeverAdvancesBody (count : ℕ) : List Request :=
  let flush :=
    ((clockIn.setControl true true false true false).setInstruction
      0xE2000000 0xEA000000).setPrefix "Flush IS_VALID(0) with IS_ADVANCE(1)"
  [.reset, .reset, .valueFixed clockIn] ++
    -- spin for awhile holding the computed datum
    List.replicate count .hold ++
    [.valueFixed flush, .hold, .hold]

def errorWAdvanceValidBody : List Request :=
  let advance :=
    ((ValueFixed.fresh.setControl true true false false true).setInstruction
      0xE1000000 0xE8000000).setPrefix "IS_VALID(1) with IS_ADVANCE(1)"
  let error :=
    ((advance.setControl true true true false true).setInstruction
      0xE2000000 0xEA000000).setPrefix "ERROR: IS_VALID(1) with IS_ADVANCE(1)"
  [.reset, .reset, .valueFixed advance, .valueFixed error, .hold, .hold]

def resetAdvanceWithOutValidBody (count : ℕ) : List Request :=
  let reset1a :=
    ((ValueFixed.fresh.setControl false false false false false).setInstruction
      0xE1000000 0xE8000000).setPrefix "RESET TEST-1 #0)"
  let reset1b := reset1a.setPrefix "RESET TEST-1 #1)"
  let data :=
    ((reset1b.setControl true true false false false).setInstruction
      0xE3000000 0xEC000000).setPrefix "Data and IS_VALID(0) with IS_ADVANCE(1)"
  let resetData :=
    ((data.setControl false true false false false).setInstruction
      0xE6000000 0xEA000000).setPrefix "Data and IS_VALID(0) with IS_ADVANCE(1)"
  let reset2a :=
    ((resetData.setControl false false false false false).setInstruction
      0xE4000000 0xEE000000).setPrefix "RESET TEST-2 #0)"
  let reset2b := reset2a.setPrefix "RESET test-2 #1)"
  let valid :=
    ((reset2b.setControl true false false false true).setInstruction
      0xE2000000 0xEA000000).setPrefix "Data with IS_VALID(1)/IS_ADVANCE(0)"
  let resetValid :=
    ((valid.setControl false true false false false).setInstruction
      0xE2000000 0xEA000000).setPrefix "RESET with IS_VALID(0)/IS_ADVANCE(1)"
  [.valueFixed reset1a, .valueFixed reset1b, .valueFixed data] ++
    List.replicate count .hold ++
    [.valueFixed resetData, .hold, .hold,
      .valueFixed reset2a, .valueFixed reset2b, .valueFixed valid, .valueFixed resetValid,
      .hold, .hold]

/-! ## `base_t` -/

inductive Kind where
  | repeatT
  | allControlPairs
  | randomWeighted
  | randomLoop
  | flushWAdvanceNeverAdvances
  | errorWAdvanceValid
  | resetAdvanceWithOutValid
  deriving DecidableEq, Repr

structure TestSequence where
  kind : Kind
  m_count : Unsigned
  m_spinning : Bool
  deriving DecidableEq, Repr

namespace TestSequence

/-- A sequence as its constructor leaves it. -/
def make (kind : Kind) (count : Unsigned) : TestSequence := ⟨kind, count, false⟩

/-- `COUNT` and `COUNT_DEFAULT` of the classes; `base_t` itself counts to one. -/
def countDefault : Kind → Unsigned
  | .repeatT => 10
  | .allControlPairs => 1 * 10
  | .randomWeighted => 20 * 1000
  | .randomLoop => 20 * 1000
  | .flushWAdvanceNeverAdvances => 1 * 10
  | .errorWAdvanceValid => 1
  | .resetAdvanceWithOutValid => 1

def setCount (s : TestSequence) (value : Unsigned) : Except Abort TestSequence :=
  if 1 > value then
    .error (.uvmFatal "USAGE" "Value assignment is illogical.")
  else if s.m_spinning then
    .error (.uvmFatal "USAGE" "The count cannot be changed mid-flight.")
  else .ok { s with m_count := value }

def doBody (beyond : ℕ → Char) (s : TestSequence) : List Request :=
  match s.kind with
  | .repeatT => repeatBody s.m_count.toNat
  | .allControlPairs => allControlPairsBody beyond s.m_count.toNat
  | .randomWeighted => randomWeightedBody s.m_count.toNat
  | .randomLoop => randomLoopBody s.m_count.toNat
  | .flushWAdvanceNeverAdvances => flushWAdvanceNeverAdvancesBody s.m_count.toNat
  | .errorWAdvanceValid => errorWAdvanceValidBody
  | .resetAdvanceWithOutValid => resetAdvanceWithOutValidBody s.m_count.toNat

/-- `body`; the flag is set for as long as `do_body` runs. -/
def body (beyond : ℕ → Char) (s : TestSequence) : Except Abort (List Request) :=
  if s.m_spinning then .error (.uvmFatal "USAGE" "This method is not reentrant.")
  else .ok (doBody beyond s)

end TestSequence

/-! ## `send_item` -/

/-- The items as they reach the sequencer, and the generator after them. -/
def sendItems (g : Generator) : List Request → List Request × Generator
  | [] => ([], g)
  | item :: items =>
      let (item, g) := item.randomise g
      let (items, g) := sendItems g items
      (item :: items, g)

/-- The sequences are started one after the other. -/
def startAll (beyond : ℕ → Char) (g : Generator) :
    List TestSequence → Except Abort (List Request)
  | [] => .ok []
  | s :: ss =>
      match s.body beyond with
      | .error e => .error e
      | .ok items =>
          let (sent, g) := sendItems g items
          (startAll beyond g ss).map (sent ++ ·)

theorem sendItems_of_isFixed (g : Generator) {items : List Request}
    (h : ∀ item ∈ items, item.IsFixed) : sendItems g items = (items, g) := by
  induction items generalizing g with
  | nil => rfl
  | cons item items ih =>
      rw [sendItems, randomise_of_isFixed (h item (List.mem_cons_self ..))]
      simp only
      rw [ih g fun r hr => h r (List.mem_cons_of_mem _ hr)]

theorem body_of_idle (beyond : ℕ → Char) {s : TestSequence} (h : s.m_spinning = false) :
    s.body beyond = .ok (s.doBody beyond) := by
  rw [TestSequence.body, h]
  rfl

theorem startAll_ok (beyond : ℕ → Char) (g : Generator) {ss : List TestSequence}
    (hidle : ∀ s ∈ ss, s.m_spinning = false) : ∃ sent, startAll beyond g ss = .ok sent := by
  induction ss generalizing g with
  | nil => exact ⟨[], rfl⟩
  | cons s ss ih =>
      have hrest : ∀ u ∈ ss, u.m_spinning = false :=
        fun u hu => hidle u (List.mem_cons_of_mem _ hu)
      obtain ⟨sent, hsent⟩ := ih (sendItems g (s.doBody beyond)).2 hrest
      rw [startAll, body_of_idle beyond (hidle s (List.mem_cons_self ..))]
      exact ⟨_, by simp only [hsent]; rfl⟩

theorem sendItems_append (g : Generator) (items more : List Request) :
    sendItems g (items ++ more) =
      ((sendItems g items).1 ++ (sendItems (sendItems g items).2 more).1,
        (sendItems (sendItems g items).2 more).2) := by
  induction items generalizing g with
  | nil => rfl
  | cons item items ih =>
      rw [List.cons_append, sendItems, sendItems]
      simp only [ih, List.cons_append]

theorem length_sendItems (g : Generator) (items : List Request) :
    (sendItems g items).1.length = items.length := by
  induction items generalizing g with
  | nil => rfl
  | cons item items ih =>
      rw [sendItems]
      simp only [List.length_cons, ih]

/-- The sequences, one after the other, are one long sequence to the generator. -/
theorem startAll_eq (beyond : ℕ → Char) (g : Generator) {ss : List TestSequence}
    (hidle : ∀ s ∈ ss, s.m_spinning = false) :
    startAll beyond g ss = .ok (sendItems g (ss.flatMap (·.doBody beyond))).1 := by
  induction ss generalizing g with
  | nil => rfl
  | cons s ss ih =>
      have hrest : ∀ u ∈ ss, u.m_spinning = false :=
        fun u hu => hidle u (List.mem_cons_of_mem _ hu)
      rw [startAll, body_of_idle beyond (hidle s (List.mem_cons_self ..)), List.flatMap_cons,
        sendItems_append]
      simp only [ih _ hrest]
      rfl

/-- A sequence that draws no random number goes out as it was written. -/
theorem body_sent (beyond : ℕ → Char) (g : Generator) {ss : List TestSequence}
    {s : TestSequence} (hs : s ∈ ss) (hidle : ∀ s ∈ ss, s.m_spinning = false)
    (hfixed : ∀ item ∈ s.doBody beyond, item.IsFixed) {sent : List Request}
    (hsent : startAll beyond g ss = .ok sent) : s.doBody beyond <:+: sent := by
  induction ss generalizing g sent with
  | nil => exact absurd hs List.not_mem_nil
  | cons t ss ih =>
      have hrest : ∀ u ∈ ss, u.m_spinning = false :=
        fun u hu => hidle u (List.mem_cons_of_mem _ hu)
      obtain ⟨tail, htail⟩ := startAll_ok beyond (sendItems g (t.doBody beyond)).2 hrest
      rw [startAll, body_of_idle beyond (hidle t (List.mem_cons_self ..))] at hsent
      simp only [htail, Except.map, Except.ok.injEq] at hsent
      subst hsent
      rcases List.mem_cons.mp hs with rfl | hmem
      · rw [sendItems_of_isFixed g hfixed]
        exact (List.prefix_append _ _).isInfix
      · exact (ih _ hmem hrest htail).trans (List.suffix_append _ _).isInfix

/-! ## What `all_control_pairs_t` covers -/

theorem controlBit_eq (bits : Unsigned) (k : ℕ) : controlBit bits k = bits.getLsbD k := by
  have hbit : (bits >>> k).getLsbD 0 = bits.getLsbD k := by
    rw [BitVec.getLsbD_ushiftRight, Nat.add_zero]
  have hand : (0x01 : Unsigned) &&& (bits >>> k) =
      (BitVec.ofBool (bits.getLsbD k)).setWidth 32 := by
    rw [BitVec.and_comm, ← hbit]
    exact BitVec.and_one_eq_setWidth_ofBool_getLsbD
  rw [controlBit, hand]
  cases bits.getLsbD k <;> decide

/-- The control bits of a cycle are five bits of the sequence number, the first
cycle taking the high ones. -/
theorem pairBits_getLsbD (n cycle k : ℕ) (hk : k < bit_count) :
    (pairBits (BitVec.ofNat 32 n) cycle).getLsbD k =
      (decide ((sequence_cycles - cycle - 1) * bit_count + k < 32) &&
        n.testBit ((sequence_cycles - cycle - 1) * bit_count + k)) := by
  have hmask : bit_mask.getLsbD k = true := by
    have hall : ∀ j < bit_count, bit_mask.getLsbD j = true := by decide
    exact hall k hk
  rw [pairBits, BitVec.getLsbD_and, hmask, Bool.true_and, BitVec.getLsbD_ushiftRight,
    BitVec.getLsbD_ofNat]

theorem pairItems_isFixed (beyond : ℕ → Char) : ∀ item ∈ pairItems beyond, item.IsFixed := by
  intro item hitem
  obtain ⟨sequence, -, hseq⟩ := List.mem_flatMap.mp hitem
  obtain ⟨cycle, -, rfl⟩ := List.mem_map.mp hseq
  trivial

theorem allControlPairsBody_isFixed (beyond : ℕ → Char) (count : ℕ) :
    ∀ item ∈ allControlPairsBody beyond count, item.IsFixed := by
  intro item hitem
  rcases List.mem_append.mp hitem with hpair | hhold
  · obtain ⟨_, -, hmem⟩ := List.mem_flatMap.mp hpair
    exact pairItems_isFixed beyond item hmem
  · simp only [List.mem_cons, List.not_mem_nil, or_false, or_self] at hhold
    rw [hhold]
    trivial

theorem infix_flatMap {α β : Type*} {a : α} {l : List α} (h : a ∈ l) (f : α → List β) :
    f a <:+: l.flatMap f := by
  obtain ⟨pre, post, rfl⟩ := List.append_of_mem h
  rw [List.flatMap_append, List.flatMap_cons, ← List.append_assoc]
  exact ⟨pre.flatMap f, post.flatMap f, rfl⟩

/-- The two requests of a sequence number stand next to each other among the
items, ahead of the closing holds. -/
theorem pair_adjacent (beyond : ℕ → Char) {count n : ℕ} (hcount : 1 ≤ count)
    (hn : n < sequence_count) :
    [Request.valueFixed (pairRequest beyond (BitVec.ofNat 32 n) 0),
      .valueFixed (pairRequest beyond (BitVec.ofNat 32 n) 1)] <:+:
      (List.range count).flatMap fun _ => pairItems beyond := by
  have hpair := infix_flatMap (List.mem_range.mpr hn) fun sequence =>
    (List.range sequence_cycles).map fun cycle =>
      Request.valueFixed (pairRequest beyond (BitVec.ofNat 32 sequence) cycle)
  have hiter := infix_flatMap (List.mem_range.mpr hcount) fun _ => pairItems beyond
  exact hpair.trans hiter

/-- How many items a sequence sends. -/
theorem length_pairItems (beyond : ℕ → Char) : (pairItems beyond).length = 2 * 1024 := by
  have hlen : ∀ sequence : ℕ, ((List.range sequence_cycles).map fun cycle =>
      Request.valueFixed (pairRequest beyond (BitVec.ofNat 32 sequence) cycle)).length = 2 := by
    intro sequence
    rw [List.length_map, List.length_range]
    rfl
  rw [pairItems, List.length_flatMap]
  simp only [hlen, List.map_const', List.length_range, List.sum_replicate_nat]
  rfl

end PipelineBench.Sequence
