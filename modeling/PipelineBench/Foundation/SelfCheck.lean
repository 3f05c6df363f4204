import PipelineBench.Foundation.Run

/-!
# Self-checking runs

A device is fed inputs that do not depend on what it answers, and is read back
before each of them. The checked run goes on while the reading is the expected
one. It is compared with the plain run of the device over the same inputs.
-/

namespace PipelineBench.SelfCheck

variable {σ ι β ε : Type*}

/-- The device after `n` inputs. -/
def drive (step : σ → ι → Except ε σ) (input : ℕ → ι) (s : σ) : ℕ → Except ε σ
  | 0 => .ok s
  | n + 1 => (drive step input s n).bind fun s => step s (input n)

/-- The first `n` readings are the expected ones. -/
def Agrees (step : σ → ι → Except ε σ) (read : σ → β) (input : ℕ → ι) (expected : ℕ → β) (s : σ)
    (n : ℕ) : Prop :=
  ∀ k < n, ∃ sk, drive step input s k = .ok sk ∧ read sk = expected k

/-- The run with a check before every input. -/
def checkedDrive [DecidableEq β] (step : σ → ι → Except ε σ) (read : σ → β) (input : ℕ → ι)
    (expected : ℕ → β) (bad : ε) (s : σ) : ℕ → Except ε σ
  | 0 => .ok s
  | n + 1 => (checkedDrive step read input expected bad s n).bind fun s =>
      if read s = expected n then step s (input n) else .error bad

variable {step : σ → ι → Except ε σ} {read : σ → β} {input : ℕ → ι} {expected : ℕ → β} {s : σ}

theorem drive_succ_ok {n : ℕ} {s₁ : σ} (h : drive step input s n = .ok s₁) :
    drive step input s (n + 1) = step s₁ (input n) := by
  rw [drive, h]
  rfl

/-- A run that succeeds has succeeded so far. -/
theorem drive_ok_of_succ {n : ℕ} {s₂ : σ} (h : drive step input s (n + 1) = .ok s₂) :
    ∃ s₁, drive step input s n = .ok s₁ ∧ step s₁ (input n) = .ok s₂ := by
  cases hn : drive step input s n with
  | error e =>
      rw [drive, hn] at h
      cases h
  | ok s₁ =>
      rw [drive_succ_ok hn] at h
      exact ⟨s₁, rfl, h⟩

theorem drive_ok_of_le {m n : ℕ} (hmn : m ≤ n) {sn : σ} (h : drive step input s n = .ok sn) :
    ∃ sm, drive step input s m = .ok sm := by
  induction hmn generalizing sn with
  | refl => exact ⟨sn, h⟩
  | step _ ih =>
      obtain ⟨s₁, hs₁, -⟩ := drive_ok_of_succ h
      exact ih hs₁

/-- A run looks at no more inputs than it has steps. -/
theorem drive_congr {input' : ℕ → ι} {n : ℕ} (h : ∀ k < n, input k = input' k) :
    drive step input s n = drive step input' s n := by
  induction n with
  | zero => rfl
  | succ n ih =>
      rw [drive, drive, ih fun k hk => h k (by omega), h n (by omega)]

theorem Agrees.mono {m n : ℕ} (hmn : m ≤ n) (h : Agrees step read input expected s n) :
    Agrees step read input expected s m :=
  fun k hk => h k (by omega)

theorem Agrees.zero : Agrees step read input expected s 0 := by
  intro k hk
  omega

theorem agrees_succ_iff {n : ℕ} :
    Agrees step read input expected s (n + 1) ↔
      Agrees step read input expected s n ∧
        ∃ sn, drive step input s n = .ok sn ∧ read sn = expected n := by
  constructor
  · intro h
    exact ⟨h.mono (by omega), h n (by omega)⟩
  · rintro ⟨hold, hnew⟩ k hk
    rcases Nat.lt_succ_iff_lt_or_eq.mp hk with hk | rfl
    · exact hold k hk
    · exact hnew

/-- Where each expectation is computed from the one before, it makes no
difference that it is not computed from the reading itself. -/
theorem agrees_succ_iff_steps {α : Type*} {ref : β → α → β} {stim : ℕ → α}
    (hexp : ∀ k, expected (k + 1) = ref (expected k) (stim k)) {n : ℕ} :
    Agrees step read input expected s (n + 1) ↔ read s = expected 0 ∧
      ∀ k < n, ∃ sk sk', drive step input s k = .ok sk ∧ step sk (input k) = .ok sk' ∧
        read sk' = ref (read sk) (stim k) := by
  induction n with
  | zero =>
      constructor
      · intro h
        obtain ⟨s₀, hs₀, hread⟩ := h 0 (by omega)
        cases hs₀
        exact ⟨hread, by omega⟩
      · rintro ⟨hread, -⟩ k hk
        have hk : k = 0 := by omega
        subst hk
        exact ⟨s, rfl, hread⟩
  | succ n ih =>
      rw [agrees_succ_iff]
      constructor
      · rintro ⟨hold, sn', hsn', hread⟩
        obtain ⟨hfirst, hsteps⟩ := ih.mp hold
        refine ⟨hfirst, ?_⟩
        intro k hk
        rcases Nat.lt_succ_iff_lt_or_eq.mp hk with hk | rfl
        · exact hsteps k hk
        · obtain ⟨sk, hsk, hstep⟩ := drive_ok_of_succ hsn'
          obtain ⟨sk', hsk', hread'⟩ := hold k (by omega)
          rw [hsk, Except.ok.injEq] at hsk'
          subst hsk'
          refine ⟨sk, sn', hsk, hstep, ?_⟩
          rw [hread, hexp, hread']
      · rintro ⟨hfirst, hsteps⟩
        have hold : Agrees step read input expected s (n + 1) :=
          ih.mpr ⟨hfirst, fun k hk => hsteps k (by omega)⟩
        obtain ⟨sn, sn', hsn, hstep, hread⟩ := hsteps n (by omega)
        obtain ⟨sk, hsk, hread'⟩ := hold n (by omega)
        rw [hsn, Except.ok.injEq] at hsk
        subst hsk
        refine ⟨hold, sn', ?_, ?_⟩
        · rw [drive_succ_ok hsn, hstep]
        · rw [hread, hread', hexp]

/-- A device that an invariant keeps from failing, and that moves as expected
from it, agrees for ever. -/
theorem agrees_of_total {Inv : σ → Prop} (ht : Run.Total step Inv) (hs : Inv s)
    (hfirst : read s = expected 0)
    (hstep : ∀ k s₁ s₂, Inv s₁ → step s₁ (input k) = .ok s₂ → read s₁ = expected k →
      read s₂ = expected (k + 1)) (n : ℕ) :
    ∃ sn, drive step input s n = .ok sn ∧ Inv sn ∧ read sn = expected n ∧
      Agrees step read input expected s n := by
  induction n with
  | zero => exact ⟨s, rfl, hs, hfirst, .zero⟩
  | succ n ih =>
      obtain ⟨sn, hdrive, hinv, hread, hagrees⟩ := ih
      obtain ⟨sn', hnext, hinv'⟩ := ht sn (input n) hinv
      refine ⟨sn', ?_, hinv', hstep n sn sn' hinv hnext hread,
        agrees_succ_iff.mpr ⟨hagrees, sn, hdrive, hread⟩⟩
      rw [drive_succ_ok hdrive, hnext]

variable [DecidableEq β] {bad : ε}

/-- The checked run succeeds where the device does and every reading agrees. -/
theorem checkedDrive_ok_iff {n : ℕ} {s' : σ} :
    checkedDrive step read input expected bad s n = .ok s' ↔
      drive step input s n = .ok s' ∧ Agrees step read input expected s n := by
  induction n generalizing s' with
  | zero =>
      constructor
      · intro h
        exact ⟨h, .zero⟩
      · rintro ⟨h, -⟩
        exact h
  | succ n ih =>
      constructor
      · intro h
        cases hn : checkedDrive step read input expected bad s n with
        | error e =>
            rw [checkedDrive, hn] at h
            cases h
        | ok sn =>
            obtain ⟨hdrive, hagrees⟩ := ih.mp hn
            rw [checkedDrive, hn] at h
            by_cases hread : read sn = expected n
            · refine ⟨?_, agrees_succ_iff.mpr ⟨hagrees, sn, hdrive, hread⟩⟩
              rw [drive_succ_ok hdrive]
              simpa [Except.bind, hread] using h
            · simp [Except.bind, hread] at h
      · rintro ⟨hdrive, hagrees⟩
        obtain ⟨hold, sn, hsn, hread⟩ := agrees_succ_iff.mp hagrees
        rw [drive_succ_ok hsn] at hdrive
        rw [checkedDrive, ih.mpr ⟨hsn, hold⟩]
        simp only [Except.bind, hread, if_true]
        exact hdrive

/-- It stops at the first reading that differs, or with the device's own error. -/
theorem checkedDrive_error {n : ℕ} {e : ε}
    (h : checkedDrive step read input expected bad s n = .error e) :
    ∃ k < n, ∃ sk, drive step input s k = .ok sk ∧ Agrees step read input expected s k ∧
      ((read sk ≠ expected k ∧ e = bad) ∨
        (read sk = expected k ∧ step sk (input k) = .error e)) := by
  induction n with
  | zero => cases h
  | succ n ih =>
      cases hn : checkedDrive step read input expected bad s n with
      | error e' =>
          rw [checkedDrive, hn] at h
          cases h
          obtain ⟨k, hk, hfound⟩ := ih hn
          exact ⟨k, by omega, hfound⟩
      | ok sn =>
          obtain ⟨hdrive, hagrees⟩ := checkedDrive_ok_iff.mp hn
          refine ⟨n, by omega, sn, hdrive, hagrees, ?_⟩
          rw [checkedDrive, hn] at h
          by_cases hread : read sn = expected n
          · refine Or.inr ⟨hread, ?_⟩
            simpa [Except.bind, hread] using h
          · refine Or.inl ⟨hread, ?_⟩
            simpa [Except.bind, hread, eq_comm] using h

end PipelineBench.SelfCheck
