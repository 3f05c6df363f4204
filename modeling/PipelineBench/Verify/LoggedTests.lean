import Mathlib.Data.Bool.Count
import Mathlib.Data.List.Induction
import PipelineBench.Unit.Logger

/-!
# Which logged tests reach the report

The report is about the ended groups. A test is in one of these exactly when the
group it was logged in was ended: `begin_group` throws away what was logged
outside a group, and `output` says nothing of a group still open, although its
comment asks for an exception there.
-/

namespace PipelineBench.LoggedTests

open Logger

/-- The calls of a test program. -/
inductive Call where
  | beginGroup (group_name description : String)
  | beginGroupString (group_name description : String)
  | testFalse (name : String) (value : Bool)
  | testTrue (name : String) (value : Bool)
  | endGroup
  deriving DecidableEq, Repr

def Call.apply (l : Logger) : Call → Except Abort Logger
  | .beginGroup group_name description => l.beginGroup group_name description
  | .beginGroupString group_name description => l.beginGroupString group_name description
  | .testFalse name value => .ok (l.testFalse name value)
  | .testTrue name value => .ok (l.testTrue name value)
  | .endGroup => .ok l.endGroup

/-- Make the calls one after the other, as far as none throws. -/
def run : Logger → List Call → Except Abort Logger
  | l, [] => .ok l
  | l, c :: cs =>
      match c.apply l with
      | .error e => .error e
      | .ok l' => run l' cs

/-- Whether the test a call logs met its expectation. -/
def Call.met : Call → Option Bool
  | .testFalse _ value => some (!value)
  | .testTrue _ value => some value
  | _ => none

def Call.isBegin : Call → Bool
  | .beginGroup _ _ => true
  | .beginGroupString _ _ => true
  | _ => false

/-- The tests logged in a history. -/
def logged (h : List Call) : List Bool := h.filterMap Call.met

/-! ## The tests that reach the report -/

/-- A group is ended before another begins. -/
def endsNext : List Call → Bool
  | [] => false
  | .endGroup :: _ => true
  | c :: cs => !c.isBegin && endsNext cs

/-- The tests of the groups ended in a history. -/
def reported : List Call → List Bool
  | [] => []
  | c :: cs => (if endsNext cs then c.met.toList else []) ++ reported cs

/-- The tests of the ended groups. -/
def ended (l : Logger) : List Bool := l.m_results.flatMap fun g => g.test.map LoggedTest.pass

/-- The tests of the current group. -/
def pending (l : Logger) : List Bool := l.m_group.test.map LoggedTest.pass

theorem endsNext_cons (c : Call) (cs : List Call) (hend : c ≠ .endGroup) :
    endsNext (c :: cs) = (!c.isBegin && endsNext cs) := by
  cases c with
  | endGroup => exact absurd rfl hend
  | _ => rfl

theorem pending_logTest (l : Logger) (test : LoggedTest) :
    pending (l.logTest test) = pending l ++ [test.pass] := by
  unfold pending
  rw [test_logTest, List.map_append]
  rfl

theorem ended_endGroup (l : Logger) : ended l.endGroup = ended l ++ pending l := by
  unfold ended pending Logger.endGroup
  rw [List.flatMap_append, List.flatMap_singleton]

/-- What one call does to the ended and the pending tests. -/
theorem apply_cases {l l' : Logger} {c : Call} (h : c.apply l = .ok l') :
    (c.isBegin = true ∧ c.met = none ∧ ended l' = ended l ∧ pending l' = []) ∨
    (c = .endGroup ∧ ended l' = ended l ++ pending l ∧ pending l' = []) ∨
    (∃ b, c.isBegin = false ∧ c ≠ .endGroup ∧ c.met = some b ∧ ended l' = ended l ∧
      pending l' = pending l ++ [b]) := by
  cases c with
  | beginGroup group_name description =>
      rw [Call.apply, Logger.beginGroup, Group.initialise] at h
      split at h
      · cases h
      · cases h
        exact Or.inl ⟨rfl, rfl, rfl, rfl⟩
  | beginGroupString group_name description =>
      rw [Call.apply, Logger.beginGroupString, Group.initialise] at h
      split at h
      · cases h
      · cases h
        exact Or.inl ⟨rfl, rfl, rfl, rfl⟩
  | testFalse name value =>
      cases h
      exact Or.inr (Or.inr ⟨!value, rfl, by simp, rfl, rfl, pending_logTest ..⟩)
  | testTrue name value =>
      cases h
      exact Or.inr (Or.inr ⟨value, rfl, by simp, rfl, rfl, pending_logTest ..⟩)
  | endGroup =>
      cases h
      exact Or.inr (Or.inl ⟨rfl, ended_endGroup l, rfl⟩)

/-- At the end of a history the ended groups hold the tests ended before it, the
pending ones if their group was ended, and the reported ones. -/
theorem ended_run {l l' : Logger} {h : List Call} (hrun : run l h = .ok l') :
    ended l' = ended l ++ (if endsNext h then pending l else []) ++ reported h := by
  induction h generalizing l with
  | nil =>
      cases hrun
      simp [endsNext, reported]
  | cons c cs ih =>
      rw [run] at hrun
      cases hc : c.apply l with
      | error e =>
          rw [hc] at hrun
          cases hrun
      | ok l₁ =>
          rw [hc] at hrun
          rw [ih hrun]
          -- begin drops the pending tests, end moves them, a test joins them
          rcases apply_cases hc with ⟨hb, hm, he, hp⟩ | ⟨rfl, he, hp⟩ | ⟨b, hb, hne, hm, he, hp⟩
          · have hne : c ≠ .endGroup := by
              rintro rfl
              cases hb
            rw [endsNext_cons c cs hne, reported, hb, hm, he, hp]
            simp
          · rw [he, hp]
            simp [endsNext, reported, Call.met]
          · rw [endsNext_cons c cs hne, reported, hb, hm, he, hp]
            cases endsNext cs <;> simp

theorem logged_cons (c : Call) (cs : List Call) : logged (c :: cs) = c.met.toList ++ logged cs := by
  unfold logged
  rw [List.filterMap_cons]
  cases c.met <;> rfl

theorem reported_sublist (h : List Call) : (reported h).Sublist (logged h) := by
  induction h with
  | nil => exact List.Sublist.refl _
  | cons c cs ih =>
      rw [reported, logged_cons]
      cases endsNext cs with
      | false => exact ih.trans (List.sublist_append_right _ _)
      | true => exact ih.append_left _

/-! ## Nothing is lost -/

/-- Every test is followed by the end of its group, before another begins. -/
def AllEnded (h : List Call) : Prop :=
  ∀ pre c post, h = pre ++ c :: post → c.met ≠ none →
    ∃ mid rest, post = mid ++ .endGroup :: rest ∧ ∀ d ∈ mid, d.isBegin = false

theorem endsNext_iff (h : List Call) :
    endsNext h = true ↔
      ∃ mid rest, h = mid ++ .endGroup :: rest ∧ ∀ d ∈ mid, d.isBegin = false := by
  induction h with
  | nil => simp [endsNext]
  | cons c cs ih =>
      by_cases hend : c = .endGroup
      · subst hend
        constructor
        · intro _
          exact ⟨[], cs, rfl, by simp⟩
        · intro _
          rfl
      · rw [endsNext_cons c cs hend, Bool.and_eq_true, Bool.not_eq_true', ih]
        constructor
        · rintro ⟨hb, mid, rest, rfl, hmid⟩
          refine ⟨c :: mid, rest, rfl, ?_⟩
          intro d hd
          rcases List.mem_cons.mp hd with rfl | hd
          · exact hb
          · exact hmid d hd
        · rintro ⟨mid, rest, heq, hmid⟩
          cases mid with
          | nil =>
              rw [List.nil_append, List.cons.injEq] at heq
              exact absurd heq.1 hend
          | cons d mid =>
              rw [List.cons_append, List.cons.injEq] at heq
              obtain ⟨rfl, rfl⟩ := heq
              refine ⟨hmid c (List.mem_cons_self ..), mid, rest, rfl, ?_⟩
              intro e he
              exact hmid e (List.mem_cons_of_mem _ he)

theorem allEnded_cons (c : Call) (cs : List Call) :
    AllEnded (c :: cs) ↔ (c.met ≠ none → endsNext cs = true) ∧ AllEnded cs := by
  constructor
  · intro h
    constructor
    · intro hm
      rw [endsNext_iff]
      exact h [] c cs rfl hm
    · intro pre d post heq hm
      exact h (c :: pre) d post (by rw [heq]; rfl) hm
  · rintro ⟨hhead, htail⟩ pre d post heq hm
    cases pre with
    | nil =>
        rw [List.nil_append, List.cons.injEq] at heq
        obtain ⟨rfl, rfl⟩ := heq
        exact (endsNext_iff _).mp (hhead hm)
    | cons e pre =>
        rw [List.cons_append, List.cons.injEq] at heq
        exact htail pre d post heq.2 hm

theorem allEnded_iff (h : List Call) : AllEnded h ↔ reported h = logged h := by
  induction h with
  | nil => simp [AllEnded, reported, logged]
  | cons c cs ih =>
      rw [allEnded_cons, ih, reported, logged_cons]
      cases hends : endsNext cs with
      | true => simp
      | false =>
          cases hm : c.met with
          | none => simp
          | some b =>
              have hle := (reported_sublist cs).length_le
              constructor
              · rintro ⟨hno, -⟩
                exact absurd (hno (by simp)) (by simp)
              · intro heq
                have hlen := congrArg List.length heq
                simp at hlen
                omega

/-! ## The counts -/

theorem passCount_eq (g : Group) :
    g.passCount = BitVec.ofNat 32 ((g.test.map LoggedTest.pass).count true) := by
  unfold Group.passCount
  induction g.test using List.reverseRecOn with
  | nil => rfl
  | append_singleton tests test ih =>
      rw [List.foldl_append, ih, List.map_append, List.count_append, BitVec.ofNat_add]
      cases hp : test.pass <;> simp [hp]

/-- Below `2 ^ 32` tests no count of a group wraps. -/
theorem counts_toNat {g : Group} (h : g.test.length < 2 ^ 32) :
    g.counts.pass.toNat = (g.test.map LoggedTest.pass).count true ∧
    g.counts.fail.toNat = (g.test.map LoggedTest.pass).count false ∧
    g.counts.all.toNat = g.test.length := by
  have hsum := List.count_true_add_count_false (g.test.map LoggedTest.pass)
  rw [List.length_map] at hsum
  have hpass : g.passCount.toNat = (g.test.map LoggedTest.pass).count true := by
    rw [passCount_eq, BitVec.toNat_ofNat, Nat.mod_eq_of_lt (by omega)]
  have hall : g.allCount.toNat = g.test.length := by
    rw [Group.allCount, BitVec.toNat_ofNat, Nat.mod_eq_of_lt (by omega)]
  refine ⟨hpass, ?_, hall⟩
  show g.failCount.toNat = _
  rw [Group.failCount, BitVec.toNat_sub, BitVec.toNat_setWidth, hpass, hall]
  omega

/-- The totals count the tests of the groups. -/
theorem total_toNat {groups : List Group}
    (h : (groups.flatMap fun g => g.test.map LoggedTest.pass).length < 2 ^ 32) :
    (total groups).pass.toNat = (groups.flatMap fun g => g.test.map LoggedTest.pass).count true ∧
    (total groups).fail.toNat = (groups.flatMap fun g => g.test.map LoggedTest.pass).count false ∧
    (total groups).count.toNat = (groups.flatMap fun g => g.test.map LoggedTest.pass).length := by
  induction groups using List.reverseRecOn with
  | nil => exact ⟨rfl, rfl, rfl⟩
  | append_singleton groups g ih =>
      rw [List.flatMap_append, List.flatMap_singleton, List.length_append, List.length_map] at h ⊢
      obtain ⟨hp, hf, hc⟩ := ih (by omega)
      obtain ⟨gp, gf, ga⟩ := counts_toNat (g := g) (by omega)
      have hsum := List.count_true_add_count_false (g.test.map LoggedTest.pass)
      have hsum' := List.count_true_add_count_false
        (groups.flatMap fun g => g.test.map LoggedTest.pass)
      rw [List.length_map] at hsum
      have hstep : total (groups ++ [g]) = (total groups).add g := by
        unfold total
        rw [List.foldl_append]
        rfl
      have gp' : g.passCount.toNat = _ := gp
      have gf' : g.failCount.toNat = _ := gf
      rw [hstep, List.count_append, List.count_append]
      simp only [Total.add, BitVec.toNat_add, BitVec.toNat_setWidth, hp, hf, hc, gp', gf']
      refine ⟨?_, ?_, ?_⟩ <;> omega

/-- So do the sums over a listing. -/
theorem listing_sums {groups : List Group}
    (h : (groups.flatMap fun g => g.test.map LoggedTest.pass).length < 2 ^ 32) :
    (groups.map fun g => g.counts.pass.toNat).sum =
      (groups.flatMap fun g => g.test.map LoggedTest.pass).count true ∧
    (groups.map fun g => g.counts.fail.toNat).sum =
      (groups.flatMap fun g => g.test.map LoggedTest.pass).count false ∧
    (groups.map fun g => g.counts.all.toNat).sum =
      (groups.flatMap fun g => g.test.map LoggedTest.pass).length := by
  induction groups with
  | nil => exact ⟨rfl, rfl, rfl⟩
  | cons g groups ih =>
      rw [List.flatMap_cons, List.length_append, List.length_map] at h ⊢
      obtain ⟨hp, hf, ha⟩ := ih (by omega)
      obtain ⟨gp, gf, ga⟩ := counts_toNat (g := g) (by omega)
      rw [List.count_append, List.count_append, List.map_cons, List.map_cons, List.map_cons,
        List.sum_cons, List.sum_cons, List.sum_cons, hp, hf, ha, gp, gf, ga]
      exact ⟨rfl, rfl, rfl⟩

/-! ## The report -/

/-- The report counts every test of the history once: in the totals, in both
listings, and in the outcome. -/
structure CountsEveryTest (h : List Call) (p : Printed) : Prop where
  pass : p.total.pass.toNat = (logged h).count true
  fail : p.total.fail.toNat = (logged h).count false
  count : p.total.count.toNat = (logged h).length
  listings : p.listing.map Prod.snd = p.results.map Prod.snd
  sum_pass : (p.listing.map fun r => r.2.pass.toNat).sum = p.total.pass.toNat
  sum_fail : (p.listing.map fun r => r.2.fail.toNat).sum = p.total.fail.toNat
  sum_all : (p.listing.map fun r => r.2.all.toNat).sum = p.total.count.toNat
  outcome : p.outcome = "PASS" ↔ ∀ met ∈ logged h, met = true

/-- Either `output` throws, over an open group, or it counts every test. -/
def Reports (h : List Call) (l : Logger) : Prop :=
  (∃ e, l.output = .error e ∧ l.m_group.valid = true) ∨
    ∃ p, l.output = .ok p ∧ CountsEveryTest h p

theorem outcome_iff (groups : List Group) :
    (if (total groups).fail == 0 then "PASS" else "FAILURE") = "PASS" ↔
      (total groups).fail.toNat = 0 := by
  have hnat : (total groups).fail.toNat = 0 ↔ (total groups).fail = 0 := by
    rw [← BitVec.toNat_inj]
    rfl
  rw [hnat]
  simp

/-- The report is about the tests that were reported. -/
theorem countsEveryTest_of_ended {h : List Call} {l : Logger} (hended : ended l = logged h)
    (hlen : (logged h).length < 2 ^ 32) {p : Printed} (hp : l.output = .ok p) :
    CountsEveryTest h p := by
  cases hp
  have hflat : (l.m_results.flatMap fun g => g.test.map LoggedTest.pass) = logged h := hended
  have hlen' : (l.m_results.flatMap fun g => g.test.map LoggedTest.pass).length < 2 ^ 32 := by
    rw [hflat]
    exact hlen
  obtain ⟨tp, tf, tc⟩ := total_toNat hlen'
  obtain ⟨sp, sf, sa⟩ := listing_sums hlen'
  rw [hflat] at tp tf tc sp sf sa
  refine ⟨tp, tf, tc, rfl, ?_, ?_, ?_, ?_⟩
  · rw [List.map_map, tp]
    exact sp
  · rw [List.map_map, tf]
    exact sf
  · rw [List.map_map, tc]
    exact sa
  · rw [outcome_iff, tf, List.count_eq_zero]
    constructor
    · intro hno met hmet
      cases met with
      | true => rfl
      | false => exact absurd hmet hno
    · intro hall hmem
      exact absurd (hall false hmem) (by decide)

/-- **When no test is lost.** After any history in which no call throws, the
report is as its comment says exactly when every test was followed by the end of
its group before another group began. -/
theorem no_test_lost_iff (h : List Call) (l : Logger) (hrun : run .fresh h = .ok l)
    (hlen : (logged h).length < 2 ^ 32) : Reports h l ↔ AllEnded h := by
  have hended : ended l = reported h := by
    rw [ended_run hrun]
    cases endsNext h <;> rfl
  rw [allEnded_iff]
  constructor
  · rintro (⟨e, he, -⟩ | ⟨p, hp, hcounts⟩)
    · cases he
    · cases hp
      have hflat : (l.m_results.flatMap fun g => g.test.map LoggedTest.pass) = reported h := hended
      have hle := (reported_sublist h).length_le
      have hbound : (l.m_results.flatMap fun g => g.test.map LoggedTest.pass).length < 2 ^ 32 := by
        rw [hflat]
        omega
      have htotal := (total_toNat hbound).2.2
      have hcount : (total l.m_results).count.toNat = (logged h).length := hcounts.count
      rw [hflat, hcount] at htotal
      exact (reported_sublist h).eq_of_length htotal.symm
  · intro hall
    exact Or.inr ⟨_, rfl, countsEveryTest_of_ended (hended.trans hall) hlen rfl⟩

/-- A group with a pass and a failure, ended as it should be. -/
theorem no_test_lost_iff_ended :
    Reports [.beginGroup "reset_000" "", .testTrue "(is_ready == 0)" true,
        .testFalse "(is_valid == 0)" true, .endGroup]
      ⟨.fresh, [⟨true, "reset_000", "", [⟨"(is_ready == 0)", "test_true", true⟩,
        ⟨"(is_valid == 0)", "test_false", false⟩]⟩]⟩ ↔
    AllEnded [.beginGroup "reset_000" "", .testTrue "(is_ready == 0)" true,
        .testFalse "(is_valid == 0)" true, .endGroup] :=
  no_test_lost_iff _ _ rfl (by decide)

/-- A failing test in a group that is still open: no exception, and a pass. -/
theorem failing_test_lost :
    ∃ l, run .fresh [.beginGroup "reset_000" "", .testTrue "(is_ready == 0)" false] = .ok l ∧
      l.m_group.valid = true ∧
      (∃ p, l.output = .ok p ∧ p.outcome = "PASS" ∧ p.total.count = 0) ∧
      ¬ Reports [.beginGroup "reset_000" "", .testTrue "(is_ready == 0)" false] l := by
  refine ⟨_, rfl, rfl, ⟨_, rfl, rfl, rfl⟩, ?_⟩
  rintro (⟨e, he, -⟩ | ⟨p, hp, hcounts⟩)
  · cases he
  · cases hp
    have hcount := hcounts.count
    exact absurd hcount (by decide)

end PipelineBench.LoggedTests
