import Mathlib.Algebra.Order.Floor.Div
import Mathlib.Data.Nat.SuccPred
import PipelineBench.Foundation.Odometer
import PipelineBench.Utility.ActivityIndicator

/-!
# The layout of the activity indicator

Its two counters are an odometer: calls within a period, and periods. `display`
is the state that shows an odometer; one call of `tic` turns it by one step and
writes what the step asks for. So the text of `n` calls is known, and with it
what `complete` adds.
-/

namespace PipelineBench.Utility.ActivityIndicator

open Machine

/-! ## Marks on lines -/

/-- The mark with `i` marks before it. -/
def markText (length i : ℕ) : List Char := if i ≠ 0 ∧ length ∣ i then ['\n', '.'] else ['.']

/-- A number of marks, and a newline wherever a line is full and goes on. -/
def layout (length marks : ℕ) : List Char := (List.range marks).flatMap (markText length)

theorem layout_succ (length marks : ℕ) :
    layout length (marks + 1) = layout length marks ++ markText length marks := by
  rw [layout, List.range_succ, List.flatMap_append, List.flatMap_singleton]
  rfl

/-- Full lines, and marks on the line that follows them. -/
def sheet (length full rest : ℕ) : List Char :=
  (List.replicate full (List.replicate length '.' ++ ['\n'])).flatten ++ List.replicate rest '.'

theorem sheet_next (length full rest : ℕ) :
    sheet length full rest ++ ['.'] = sheet length full (rest + 1) := by
  unfold sheet
  rw [List.append_assoc, List.replicate_succ']

theorem sheet_newline (length full : ℕ) :
    sheet length full length ++ ['\n', '.'] = sheet length (full + 1) 1 := by
  unfold sheet
  rw [List.replicate_succ' (n := full), List.flatten_concat]
  simp only [List.append_assoc, List.cons_append, List.nil_append]
  rfl

/-- Marks come out as full lines and a line that is never empty. -/
theorem layout_eq_sheet {length : ℕ} (hlength : 0 < length) (marks : ℕ) :
    layout length (marks + 1) = sheet length (marks / length) (marks % length + 1) := by
  induction marks with
  | zero =>
      rw [Nat.zero_div, Nat.zero_mod]
      rfl
  | succ marks ih =>
      rw [layout_succ, ih, markText]
      have hdvd := Odometer.dvd_succ_iff (k := marks) hlength
      by_cases hlast : marks % length + 1 = length
      · have hnext := Odometer.succ_of_last hlast
        rw [if_pos ⟨Nat.succ_ne_zero marks, hdvd.mpr hlast⟩, hnext.1, hnext.2, hlast,
          sheet_newline]
      · have hnext := Odometer.succ_of_next hlength hlast
        rw [if_neg (fun h => hlast (hdvd.mp h.2)), hnext.1, hnext.2, sheet_next]

/-- The lines of a text that starts with equal lines. -/
theorem splitOn_lines {line : List Char} (hline : '\n' ∉ line) (full : ℕ) (rest : List Char) :
    ((List.replicate full (line ++ ['\n'])).flatten ++ rest).splitOn '\n' =
      List.replicate full line ++ rest.splitOn '\n' := by
  induction full with
  | zero => rfl
  | succ full ih =>
      rw [List.replicate_succ, List.flatten_cons, List.append_assoc, List.append_assoc,
        List.singleton_append, List.splitOn_append_cons_self_of_not_mem hline, ih,
        List.replicate_succ, List.cons_append]

theorem newline_notMem_marks (n : ℕ) : '\n' ∉ List.replicate n '.' := by
  intro hmem
  exact absurd (List.eq_of_mem_replicate hmem) (by decide)

theorem splitOn_sheet (length full rest : ℕ) :
    (sheet length full rest).splitOn '\n' =
      List.replicate full (List.replicate length '.') ++ [List.replicate rest '.'] := by
  rw [sheet, splitOn_lines (newline_notMem_marks length),
    List.splitOn_eq_singleton (newline_notMem_marks rest)]

/-! ## The two counters -/

/-- The periods counted on the open line, `r` calls into the period after `q`.
A line that is full stays counted until the next one starts. -/
def lineCount (length q r : ℕ) : ℕ :=
  if r = 0 ∧ q ≠ 0 then (q - 1) % length + 1 else q % length

theorem lineCount_le {length : ℕ} (hlength : 0 < length) (q r : ℕ) :
    lineCount length q r ≤ length := by
  unfold lineCount
  split
  · exact Nat.mod_lt _ hlength
  · exact Nat.le_of_lt (Nat.mod_lt _ hlength)

theorem lineCount_last {length q : ℕ} : lineCount length (q + 1) 0 = q % length + 1 :=
  if_pos ⟨rfl, Nat.succ_ne_zero q⟩

theorem lineCount_succ {length q r : ℕ} : lineCount length q (r + 1) = q % length :=
  if_neg fun h => Nat.succ_ne_zero r h.1

/-- The line is full exactly when a newline is owed. -/
theorem lineCount_eq_iff {length : ℕ} (hlength : 0 < length) (q r : ℕ) :
    lineCount length q r = length ↔ r = 0 ∧ q ≠ 0 ∧ length ∣ q := by
  by_cases hend : r = 0 ∧ q ≠ 0
  · obtain ⟨rfl, hq⟩ := hend
    obtain ⟨k, rfl⟩ := Nat.exists_eq_succ_of_ne_zero hq
    rw [Nat.succ_eq_add_one, lineCount_last, Odometer.dvd_succ_iff hlength]
    constructor
    · intro hlast
      exact ⟨rfl, hq, hlast⟩
    · rintro ⟨-, -, hlast⟩
      exact hlast
  · have hlt := Nat.mod_lt q hlength
    rw [lineCount, if_neg hend]
    constructor
    · intro heq
      omega
    · rintro ⟨hr, hq, -⟩
      exact absurd ⟨hr, hq⟩ hend

/-- What is left of the count once the newline is written. -/
theorem lineCount_restart {length : ℕ} (hlength : 0 < length) (q r : ℕ) :
    (if lineCount length q r = length then 0 else lineCount length q r) = q % length := by
  by_cases hfull : lineCount length q r = length
  · rw [if_pos hfull]
    obtain ⟨-, -, hdvd⟩ := (lineCount_eq_iff hlength q r).mp hfull
    exact (Nat.mod_eq_zero_of_dvd hdvd).symm
  · rw [if_neg hfull]
    by_cases hend : r = 0 ∧ q ≠ 0
    · obtain ⟨rfl, hq⟩ := hend
      obtain ⟨k, rfl⟩ := Nat.exists_eq_succ_of_ne_zero hq
      rw [Nat.succ_eq_add_one, lineCount_last] at hfull ⊢
      exact (Odometer.succ_of_next hlength hfull).2.symm
    · exact if_neg hend

/-- The newline that is owed, and the mark of a new period. -/
theorem newline_append_mark {length : ℕ} (hlength : 0 < length) (q r : ℕ) :
    ((if lineCount length q r = length then ['\n'] else []) ++ if r = 0 then ['.'] else []) =
      if r = 0 then markText length q else [] := by
  simp only [lineCount_eq_iff hlength, markText]
  by_cases hr : r = 0
  · by_cases hq : q ≠ 0 ∧ length ∣ q
    · simp [hr, hq]
    · simp [hr, hq]
  · simp [hr]

/-- The indicator after `q` periods and `r` calls of the next. -/
def display (c L : Unsigned) (p : ℕ × ℕ) : ActivityIndicator :=
  { fresh c L with
    m_cycle_iteration := BitVec.ofNat 32 p.2
    m_iteration := BitVec.ofNat 32 (lineCount L.toNat p.1 p.2)
    m_cycles := BitVec.ofNat 32 (p.1 * c.toNat + p.2) }

theorem display_zero (c L : Unsigned) : display c L (0, 0) = fresh c L := by
  unfold display lineCount
  simp [fresh]

theorem ofNat_beq {a : ℕ} {x : Unsigned} (ha : a ≤ 2 ^ 32 - 1) :
    (BitVec.ofNat 32 a == x) = decide (a = x.toNat) := by
  rw [Bool.eq_iff_iff, beq_iff_eq, decide_eq_true_iff, ← BitVec.toNat_inj, BitVec.toNat_ofNat,
    Nat.mod_eq_of_lt (by omega)]

theorem ofNat_succ (a : ℕ) : BitVec.ofNat 32 (a + 1) = BitVec.ofNat 32 a + (1 : Unsigned) :=
  BitVec.ofNat_add a 1

/-- One call turns the odometer and writes a mark at the start of a period. -/
theorem tic_display {c L : Unsigned} (hL : 0 < L.toNat) {p : ℕ × ℕ} (hp : p.2 < c.toNat) :
    (display c L p).tic = (.ok (if p.2 = 0 then markText L.toNat p.1 else []),
      display c L (Odometer.step c.toNat (· + 1) p)) := by
  obtain ⟨q, r⟩ := p
  have hc := c.isLt
  have hL' := L.isLt
  have hcount := lineCount_le hL q r
  have hfull : (BitVec.ofNat 32 (lineCount L.toNat q r) == L) =
      decide (lineCount L.toNat q r = L.toNat) := ofNat_beq (by omega)
  have hmark : (BitVec.ofNat 32 r == (0 : Unsigned)) = decide (r = 0) := ofNat_beq (by omega)
  have hperiod : (BitVec.ofNat 32 (r + 1) == c) = decide (r + 1 = c.toNat) := ofNat_beq (by omega)
  have hiteration : (if lineCount L.toNat q r = L.toNat then (0 : Unsigned)
      else BitVec.ofNat 32 (lineCount L.toNat q r)) = BitVec.ofNat 32 (q % L.toNat) := by
    rw [← lineCount_restart hL q r]
    split <;> rfl
  simp only [tic, display, fresh, hfull, hmark, hperiod, Bool.false_eq_true, if_false,
    decide_eq_true_eq, hiteration, newline_append_mark hL, ← ofNat_succ]
  by_cases hlast : r + 1 = c.toNat
  · -- the period ends
    have hcycles : q * c.toNat + r + 1 = (q + 1) * c.toNat + 0 := by
      rw [Nat.add_assoc, hlast, Nat.succ_mul, Nat.add_zero]
    rw [Odometer.step_last _ hlast, if_pos hlast, if_pos hlast, hcycles]
    simp only [lineCount_last]
    rfl
  · rw [Odometer.step_next _ hlast, if_neg hlast, if_neg hlast]
    simp only [lineCount_succ]
    rfl

/-! ## Runs of `tic` -/

theorem after_tics {c L : Unsigned} (hc : 0 < c.toNat) (hL : 0 < L.toNat) (n : ℕ) :
    after step (fresh c L) (List.replicate n .tic) = display c L (n / c.toNat, n % c.toNat) := by
  have hstep : ∀ p : ℕ × ℕ, p.2 < c.toNat →
      (step (display c L p) .tic).2 = display c L (Odometer.step c.toNat (· + 1) p) := by
    intro p hp
    exact congrArg Prod.snd (tic_display hL hp)
  have hcount : ∀ k, (fun q => q + 1)^[k] 0 = k := by
    intro k
    exact (Nat.succ_iterate 0 k).trans (Nat.zero_add k)
  have hrun := Odometer.displayed_iterate (f := fun s => (step s .tic).2) hstep n (0, 0) hc
  rw [after_replicate, ← display_zero, hrun, Nat.zero_add, hcount]

/-- One mark for every period that has started. -/
theorem succ_ceilDiv {c : ℕ} (hc : 0 < c) (n : ℕ) : (n + 1) ⌈/⌉ c = n / c + 1 := by
  have hadd : n + 1 + c - 1 = n + c := by omega
  rw [Nat.ceilDiv_eq_add_pred_div, hadd, Nat.add_div_right n hc]

theorem ceilDiv_eq {c : ℕ} (hc : 0 < c) (n : ℕ) :
    n ⌈/⌉ c = n / c + if n % c = 0 then 0 else 1 := by
  cases n with
  | zero => rw [zero_ceilDiv, Nat.zero_div, Nat.zero_mod, if_pos rfl, Nat.add_zero]
  | succ n =>
      rw [succ_ceilDiv hc]
      by_cases hlast : n % c + 1 = c
      · have hsucc := Odometer.succ_of_last hlast
        rw [hsucc.1, hsucc.2, if_pos rfl]
      · have hsucc := Odometer.succ_of_next hc hlast
        rw [hsucc.1, hsucc.2, if_neg (Nat.succ_ne_zero _)]

theorem written_tics {c L : Unsigned} (hc : 0 < c.toNat) (hL : 0 < L.toNat) (n : ℕ) :
    written (answers step (fresh c L) (List.replicate n .tic)) =
      layout L.toNat (n ⌈/⌉ c.toNat) := by
  induction n with
  | zero =>
      rw [zero_ceilDiv]
      rfl
  | succ n ih =>
      have htic := tic_display (p := (n / c.toNat, n % c.toNat)) hL (Nat.mod_lt n hc)
      have hceil := ceilDiv_eq hc n
      rw [List.replicate_succ', answers_append, written_append, ih, after_tics hc hL,
        succ_ceilDiv hc]
      show layout L.toNat (n ⌈/⌉ c.toNat) ++ written [(display c L _).tic.1] = _
      rw [htic, layout_succ, hceil]
      by_cases hmod : n % c.toNat = 0
      · simp [written, hmod]
      · -- the mark of this period has been written
        simp [written, hmod, layout_succ]

theorem count_mark_layout (length marks : ℕ) : (layout length marks).count '.' = marks := by
  induction marks with
  | zero => rfl
  | succ marks ih =>
      have hmark : (markText length marks).count '.' = 1 := by
        unfold markText
        split <;> rfl
      rw [layout_succ, List.count_append, ih, hmark]

/-- **The layout of the indicator.** The text of `n` calls is its marks with a
newline between a full line and the next; every line but the last is full, the
last one is not empty, and no newline is left dangling. -/
theorem indicator_layout {c L : Unsigned} (hc : 1 ≤ c) (hL : 1 ≤ L) (n : ℕ) :
    let text := written (answers step (fresh c L) (List.replicate n .tic))
    let marks := n ⌈/⌉ c.toNat
    text = layout L.toNat marks ∧
      text.count '.' = marks ∧
      (∀ line ∈ (text.splitOn '\n').dropLast, line = List.replicate L.toNat '.') ∧
      (0 < n → ∃ rest, (text.splitOn '\n').getLast? = some (List.replicate rest '.') ∧
        1 ≤ rest ∧ rest ≤ L.toNat) ∧
      text.getLast? ≠ some '\n' := by
  intro text marks
  have hc' : 0 < c.toNat := hc
  have hL' : 0 < L.toNat := hL
  have htext : text = layout L.toNat marks := written_tics hc' hL' n
  rw [htext]
  refine ⟨rfl, count_mark_layout _ _, ?_⟩
  cases n with
  | zero =>
      have hmarks : marks = 0 := zero_ceilDiv _
      rw [hmarks]
      refine ⟨?_, ?_, ?_⟩
      · intro line hline
        exact absurd hline List.not_mem_nil
      · intro hn
        exact absurd hn (Nat.lt_irrefl 0)
      · exact nofun
  | succ n =>
      have hmarks : marks = n / c.toNat + 1 := succ_ceilDiv hc' n
      rw [hmarks, layout_eq_sheet hL', splitOn_sheet, List.dropLast_concat, List.getLast?_concat,
        ← sheet_next, List.getLast?_concat]
      refine ⟨?_, ?_, by decide⟩
      · intro line hline
        exact List.eq_of_mem_replicate hline
      · intro _
        exact ⟨_, rfl, Nat.succ_pos _, Nat.mod_lt _ hL'⟩

/-- Seven calls, two a mark and three marks a line. -/
theorem indicator_layout_lines :
    written (answers step (fresh 2 3) (List.replicate 7 .tic)) = ['.', '.', '.', '\n', '.'] :=
  (indicator_layout (c := 2) (L := 3) (by decide) (by decide) 7).1.trans (by decide)

/-! ## Completion -/

/-- The mark `complete` adds after `n + 1` calls. -/
def extraMark (c L n : ℕ) : ℕ := if lineCount L ((n + 1) / c) ((n + 1) % c) < 2 then 0 else 1

theorem complete_display {c L : Unsigned} (hL : 0 < L.toNat) (q r : ℕ)
    (hcycles : q * c.toNat + r < 2 ^ 32) :
    (display c L (q, r)).complete.1 =
      .ok (List.replicate (if lineCount L.toNat q r < 2 then 0 else 1) '.' ++ totalText ++
        Nat.toDigits 10 (q * c.toNat + r) ++ ['\n']) := by
  have hcount := lineCount_le hL q r
  have hL' := L.isLt
  have hfew : BitVec.ofNat 32 (lineCount L.toNat q r) < (2 : Unsigned) ↔
      lineCount L.toNat q r < 2 := by
    rw [BitVec.lt_def, BitVec.toNat_ofNat, Nat.mod_eq_of_lt (by omega)]
    rfl
  have htotal : showUnsigned (BitVec.ofNat 32 (q * c.toNat + r)) =
      Nat.toDigits 10 (q * c.toNat + r) := by
    rw [showUnsigned, BitVec.toNat_ofNat, Nat.mod_eq_of_lt hcycles]
  simp only [complete, display, fresh, htotal, hfew, Bool.false_eq_true, if_false]
  split <;> rfl

/-- The whole text of a completed run, `n + 1` calls long. -/
theorem written_complete {c L : Unsigned} (hc : 0 < c.toNat) (hL : 0 < L.toNat) {n : ℕ}
    (hn : n + 1 < 2 ^ 32) :
    written (answers step (fresh c L) (List.replicate (n + 1) .tic ++ [.complete])) =
      sheet L.toNat (n / c.toNat / L.toNat)
          (n / c.toNat % L.toNat + 1 + extraMark c.toNat L.toNat n) ++
        totalText ++ Nat.toDigits 10 (n + 1) ++ ['\n'] := by
  have hcycles := Nat.div_add_mod' (n + 1) c.toNat
  have hcomplete := complete_display (c := c) hL ((n + 1) / c.toNat) ((n + 1) % c.toNat)
    (by rw [hcycles]; exact hn)
  rw [answers_append, written_append, written_tics hc hL, after_tics hc hL, succ_ceilDiv hc,
    layout_eq_sheet hL]
  show _ ++ written [(display c L _).complete.1] = _
  rw [hcomplete, hcycles, ← extraMark]
  simp [written, sheet, List.replicate_add]

/-- The last line has room for another mark, or gets none. -/
theorem room_iff {c L : ℕ} (hc : 0 < c) (hL : 0 < L) (n : ℕ) :
    n / c % L + 1 + extraMark c L n ≤ L ↔
      ¬ (L ∣ n / c + 1 ∧ (3 ≤ L ∨ L = 2 ∧ c ∣ n + 1)) := by
  rw [Odometer.dvd_succ_iff hL, Odometer.dvd_succ_iff hc]
  unfold extraMark
  by_cases hfull : n / c % L + 1 = L
  · by_cases hend : n % c + 1 = c
    · -- the period has ended, and its line counts as full
      have hsucc := Odometer.succ_of_last hend
      rw [hsucc.1, hsucc.2, lineCount_last, hfull]
      split <;> omega
    · -- the period is open, and its line lacks one
      have hsucc := Odometer.succ_of_next hc hend
      rw [hsucc.1, hsucc.2, lineCount_succ]
      split <;> omega
  · have hlt := Nat.mod_lt (n / c) hL
    split <;> omega

theorem newline_notMem_total (n : ℕ) : '\n' ∉ totalText ++ Nat.toDigits 10 n := by
  rw [List.mem_append]
  rintro (htext | hdigits)
  · exact absurd htext (by decide)
  · exact notMem_toDigits (by decide) n hdigits

theorem count_mark_total (n : ℕ) : (totalText ++ Nat.toDigits 10 n).count '.' = 0 := by
  rw [List.count_append, List.count_eq_zero_of_not_mem (notMem_toDigits (by decide) n)]
  decide

/-- No line is too long when the last one is not. -/
theorem lines_fit_iff (length full rest n : ℕ) :
    (∀ line ∈ (sheet length full rest ++ totalText ++ Nat.toDigits 10 n ++ ['\n']).splitOn '\n',
      line.count '.' ≤ length) ↔ rest ≤ length := by
  have hlast : '\n' ∉ List.replicate rest '.' ++ (totalText ++ Nat.toDigits 10 n) := by
    rw [List.mem_append, not_or]
    exact ⟨newline_notMem_marks rest, newline_notMem_total n⟩
  have hcount : (List.replicate rest '.' ++ (totalText ++ Nat.toDigits 10 n)).count '.' = rest := by
    rw [List.count_append, count_mark_total, List.count_replicate_self, Nat.add_zero]
  have hlines : (sheet length full rest ++ totalText ++ Nat.toDigits 10 n ++ ['\n']).splitOn '\n' =
      List.replicate full (List.replicate length '.') ++
        [List.replicate rest '.' ++ (totalText ++ Nat.toDigits 10 n), []] := by
    rw [← List.splitOn_nil '\n', ← List.splitOn_append_cons_self_of_not_mem hlast,
      ← splitOn_lines (newline_notMem_marks length), sheet]
    simp only [List.append_assoc]
  rw [hlines]
  constructor
  · intro hfit
    rw [← hcount]
    exact hfit _ (by simp)
  · intro hrest line hline
    rw [List.mem_append] at hline
    rcases hline with hline | hline
    · rw [List.eq_of_mem_replicate hline, List.count_replicate_self]
    · rcases List.mem_cons.mp hline with rfl | hline
      · rwa [hcount]
      · rw [List.mem_singleton.mp hline]
        exact Nat.zero_le length

/-- **What `complete` makes of the requirements.** The number is right and
stands after a mark; no line is too long unless the last line is full and
`complete` adds a mark to it. -/
theorem complete_meets_requirements_iff {c L : Unsigned} (hc : 1 ≤ c) (hL : 1 ≤ L) {n : ℕ}
    (hn : 1 ≤ n) (hlt : n < 2 ^ 32) :
    let text := written (answers step (fresh c L) (List.replicate n .tic ++ [.complete]))
    ((∀ line ∈ text.splitOn '\n', line.count '.' ≤ L.toNat) ∧
      ∃ before, text = before ++ ['.'] ++ totalText ++ Nat.toDigits 10 n ++ ['\n']) ↔
    ¬ (L.toNat ∣ n ⌈/⌉ c.toNat ∧ (3 ≤ L.toNat ∨ L.toNat = 2 ∧ c.toNat ∣ n)) := by
  intro text
  have hc' : 0 < c.toNat := hc
  have hL' : 0 < L.toNat := hL
  obtain ⟨k, rfl⟩ := Nat.exists_eq_add_of_le' hn
  have htext : text = _ := written_complete hc' hL' hlt
  have hfit := lines_fit_iff L.toNat (k / c.toNat / L.toNat)
    (k / c.toNat % L.toNat + 1 + extraMark c.toNat L.toNat k) (k + 1)
  rw [succ_ceilDiv hc', ← room_iff hc' hL' k, ← hfit, ← htext]
  refine and_iff_left ?_
  -- there is a mark, so the one before the text is the last of the line
  rw [htext, Nat.add_right_comm, ← sheet_next]
  exact ⟨_, rfl⟩

/-- Four calls leave the second line of three with one mark. -/
theorem complete_meets_requirements_four :
    let text := written (answers step (fresh 1 3) (List.replicate 4 .tic ++ [.complete]))
    (∀ line ∈ text.splitOn '\n', line.count '.' ≤ 3) ∧
      ∃ before, text = before ++ ['.'] ++ totalText ++ Nat.toDigits 10 4 ++ ['\n'] :=
  (complete_meets_requirements_iff (c := 1) (L := 3) (n := 4) (by decide) (by decide) (by decide)
    (by decide)).mpr (by decide)

/-- Two calls fill a line of two, and `complete` adds a third mark to it. -/
theorem complete_overfills_line :
    ¬ ∀ line ∈ (written (answers step (fresh 1 2) (List.replicate 2 .tic ++ [.complete]))).splitOn
      '\n', line.count '.' ≤ 2 := by
  decide

end PipelineBench.Utility.ActivityIndicator
