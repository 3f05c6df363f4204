import PipelineBench.Model.Signals

/-!
# The test logger

`logger.h`: one open group at a time and the groups that have been ended, and
the report over these. The time of a test is printed by nothing and left out.
-/

namespace PipelineBench

structure LoggedTest where
  name : String
  type : String
  pass : Bool
  deriving DecidableEq, Repr

namespace Logger

structure Group where
  valid : Bool
  name : String
  description : String
  test : List LoggedTest
  deriving DecidableEq, Repr

def Group.fresh : Group := ⟨false, "", "", []⟩

/-- The loop over the tests of a group, in an `unsigned`. -/
def Group.passCount (g : Group) : Unsigned :=
  g.test.foldl (fun count test => count + if test.pass then 1 else 0) 0

def Group.allCount (g : Group) : SizeT := BitVec.ofNat 64 g.test.length

def Group.failCount (g : Group) : SizeT := g.allCount - g.passCount.setWidth 64

/-- `initialise` of a group; its two overloads differ in the text they throw. -/
def Group.initialise (bad : String) (g : Group) (name description : String) : Except Abort Group :=
  if g.valid then .error (.thrown bad)
  else .ok ⟨true, name, description, []⟩

def Group.reset (_ : Group) : Group := ⟨false, "", "", []⟩

end Logger

structure Logger where
  m_group : Logger.Group
  m_results : List Logger.Group
  deriving DecidableEq, Repr

namespace Logger

def fresh : Logger := ⟨.fresh, []⟩

/-- `begin_group(char const *, char const *)`. -/
def beginGroup (l : Logger) (group_name description : String) : Except Abort Logger :=
  (l.m_group.initialise "Initialising an already valid group is bad1." group_name
    description).map fun group => { l with m_group := group }

/-- `begin_group(std::string const &, std::string const &)`. -/
def beginGroupString (l : Logger) (group_name description : String) : Except Abort Logger :=
  (l.m_group.initialise "Initialising an already valid group is bad2." group_name
    description).map fun group => { l with m_group := group }

def endGroup (l : Logger) : Logger where
  m_group := l.m_group.reset
  m_results := l.m_results ++ [l.m_group]

def logTest (l : Logger) (test : LoggedTest) : Logger :=
  { l with m_group := { l.m_group with test := l.m_group.test ++ [test] } }

def testFalse (l : Logger) (name : String) (value : Bool) : Logger :=
  l.logTest ⟨name, "test_false", !value⟩

def testTrue (l : Logger) (name : String) (value : Bool) : Logger :=
  l.logTest ⟨name, "test_true", value⟩

/-! ## `output` -/

/-- The counts a listing prints for a group. -/
structure GroupCounts where
  pass : Unsigned
  fail : SizeT
  all : SizeT
  deriving DecidableEq, Repr

def Group.counts (g : Group) : GroupCounts := ⟨g.passCount, g.failCount, g.allCount⟩

structure Total where
  pass : SizeT
  fail : SizeT
  count : SizeT
  deriving DecidableEq, Repr

/-- The sums taken while the first listing is printed. -/
def Total.add (total : Total) (g : Group) : Total where
  pass := total.pass + g.passCount.setWidth 64
  fail := total.fail + g.failCount
  count := total.count + (g.passCount.setWidth 64 + g.failCount)

def total (groups : List Group) : Total := groups.foldl Total.add ⟨0, 0, 0⟩

/-- What `output` shows: two listings of the ended groups, and the totals and
the outcome between and after them. -/
structure Printed where
  size : SizeT
  listing : List (Group × GroupCounts)
  total : Total
  results : List (Group × GroupCounts)
  outcome : String
  deriving DecidableEq, Repr

/-- Its comment asks for an exception while a group is open; there is none. -/
def output (l : Logger) : Except Abort Printed :=
  .ok
    { size := BitVec.ofNat 64 l.m_results.length
      listing := l.m_results.map fun g => (g, g.counts)
      total := Logger.total l.m_results
      results := l.m_results.map fun g => (g, g.counts)
      outcome := if (Logger.total l.m_results).fail == 0 then "PASS" else "FAILURE" }

/-- Two lines of a summary. -/
def showCounts (indent : String) (pass fail all : ℕ) : String :=
  indent ++ "pass " ++ toString pass ++ " of " ++ toString all ++ ". \n" ++
  indent ++ "fail " ++ toString fail ++ " of " ++ toString all ++ ". \n"

/-- The text on the stream. -/
def Printed.text (p : Printed) : String :=
  "All test results: \n  m_results.size(): " ++ toString p.size.toNat ++ ". \n" ++
  String.join (p.listing.map fun (g, c) =>
    "  Test group " ++ g.name ++ ": " ++ g.description ++ "\n\n    Summary: \n" ++
      showCounts "      " c.pass.toNat c.fail.toNat c.all.toNat ++ "\n") ++
  "  Overall Summary: \n    Test Results: \n" ++
  showCounts "      " p.total.pass.toNat p.total.fail.toNat p.total.count.toNat ++ "\n" ++
  String.join (p.results.map fun (g, c) =>
    "    Test Group \"" ++ g.name ++ "\" Results: \n" ++
      showCounts "      " c.pass.toNat c.fail.toNat c.all.toNat ++ "\n") ++
  "  Outcome: " ++ p.outcome ++ "\n"

@[simp] theorem test_logTest (l : Logger) (test : LoggedTest) :
    (l.logTest test).m_group.test = l.m_group.test ++ [test] := rfl

@[simp] theorem m_results_logTest (l : Logger) (test : LoggedTest) :
    (l.logTest test).m_results = l.m_results := rfl

theorem beginGroup_ok {l : Logger} (h : l.m_group.valid = false) (name description : String) :
    l.beginGroup name description = .ok ⟨⟨true, name, description, []⟩, l.m_results⟩ := by
  rw [beginGroup, Group.initialise, h]
  rfl

end Logger

end PipelineBench
