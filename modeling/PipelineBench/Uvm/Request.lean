import PipelineBench.Model.Signals

/-!
# Requests

`request.h` and `sequence_item.h`: the six kinds of request a sequence item may
hold, and how an item is randomised. A value of the model is a live object, so
`assert_alive` always passes; a variant always holds one of its six types, so
the fatal branch that ends each dispatch over them has no counterpart.
-/

namespace PipelineBench.Request

/-- `request::EXAMPLE::single_cycle_t::random_weighted_t`. -/
structure RandomWeighted where
  m_reset : Bool
  m_is_advance : Bool
  m_is_error : Bool
  m_is_flush : Bool
  m_is_valid : Bool
  m_i_binary : Word
  m_i_number : Word
  deriving DecidableEq, Repr

def RandomWeighted.fresh : RandomWeighted := ⟨false, false, false, false, false, 0, 0⟩

/-- `request::EXAMPLE::single_cycle_t::value_fixed_t`. -/
structure ValueFixed where
  m_reset : Bool
  m_is_advance : Bool
  m_is_error : Bool
  m_is_flush : Bool
  m_is_valid : Bool
  m_i_binary : Word
  m_i_number : Word
  m_prefix : String
  deriving DecidableEq, Repr

namespace ValueFixed

def fresh : ValueFixed := ⟨false, false, false, false, false, 0, 0, ""⟩

def setControl (r : ValueFixed) (reset is_advance is_error is_flush is_valid : Bool) :
    ValueFixed :=
  { r with
    m_reset := reset
    m_is_advance := is_advance
    m_is_error := is_error
    m_is_flush := is_flush
    m_is_valid := is_valid }

def setInstruction (r : ValueFixed) (i_binary i_number : Word) : ValueFixed :=
  { r with m_i_binary := i_binary, m_i_number := i_number }

def setPrefix (r : ValueFixed) (text : String) : ValueFixed := { r with m_prefix := text }

end ValueFixed

end PipelineBench.Request

namespace PipelineBench

open Request

/-- What a sequence item holds; an item is built holding a reset request. -/
inductive Request where
  | error
  | flush
  | hold
  | reset
  | randomWeighted (request : RandomWeighted)
  | valueFixed (request : ValueFixed)
  deriving DecidableEq, Repr

namespace Request

/-! ## Randomisation -/

/-- The generator shared by all requests: the numbers `random64u` returns and
how many it has returned. -/
structure Generator where
  stream : ℕ → BitVec 64
  drawn : ℕ

def Generator.random64u (g : Generator) : BitVec 64 × Generator :=
  (g.stream g.drawn, { g with drawn := g.drawn + 1 })

/-- `random_weighted_t::randomise`. Data are the low words of two more draws. -/
def RandomWeighted.randomise (_ : RandomWeighted) (g : Generator) : RandomWeighted × Generator :=
  let (bits, g) := g.random64u
  let (i_binary, g) := g.random64u
  let (i_number, g) := g.random64u
  ({ m_reset := (bits &&& 0x0000000000FF) != 0      -- 1 in 256; negative signal
     m_is_advance := (bits &&& 0x000000000300) != 0 -- 3 in 4
     m_is_error := (bits &&& 0x000003FF0000) == 0   -- 1 in 1024
     m_is_flush := (bits &&& 0x003F00000000) == 0   -- 1 in 64
     m_is_valid := (bits &&& 0x030000000000) != 0   -- 3 in 4
     m_i_binary := (0xFFFFFFFF &&& i_binary).setWidth 32
     m_i_number := (0xFFFFFFFF &&& i_number).setWidth 32 }, g)

/-- `sequence_item::single_cycle_t::randomise`; all but one kind ignore it. -/
def randomise (g : Generator) : Request → Request × Generator
  | .error => (.error, g)
  | .flush => (.flush, g)
  | .hold => (.hold, g)
  | .reset => (.reset, g)
  | .randomWeighted request =>
      let (request, g) := request.randomise g
      (.randomWeighted request, g)
  | .valueFixed request => (.valueFixed request, g)

/-- A request whose randomisation does nothing. -/
def IsFixed : Request → Prop
  | .randomWeighted _ => False
  | _ => True

instance (r : Request) : Decidable r.IsFixed := by
  cases r <;> unfold IsFixed <;> infer_instance

theorem randomise_of_isFixed {r : Request} (h : r.IsFixed) (g : Generator) :
    r.randomise g = (r, g) := by
  cases r with
  | randomWeighted request => exact h.elim
  | _ => rfl

end Request

end PipelineBench
