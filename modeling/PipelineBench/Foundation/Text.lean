import Mathlib.Data.List.Basic
import Mathlib.Data.List.Infix

/-!
# Text that can be read back

Numerals tell numbers apart, and a text that starts with one of several tags is
split again when no tag starts another.
-/

namespace PipelineBench.Text

/-! ## Numerals -/

/-- Every character of a numeral is the digit of a number below the base. -/
theorem mem_toDigits {b : ℕ} (hb : 1 < b) (n : ℕ) {c : Char} (hc : c ∈ Nat.toDigits b n) :
    ∃ d < b, c = d.digitChar := by
  induction n using Nat.strong_induction_on with
  | _ n ih =>
      rcases Nat.lt_or_ge n b with hlt | hge
      · rw [Nat.toDigits_of_lt_base hlt, List.mem_singleton] at hc
        exact ⟨n, hlt, hc⟩
      · rw [Nat.toDigits_of_base_le hb hge, List.mem_append, List.mem_singleton] at hc
        rcases hc with hc | rfl
        · exact ih (n / b) (Nat.div_lt_self (by omega) hb) hc
        · exact ⟨n % b, Nat.mod_lt n (by omega), rfl⟩

theorem digitChar_inj {d e : ℕ} (hd : d < 16) (he : e < 16) (h : d.digitChar = e.digitChar) :
    d = e := by
  have hall : ∀ d < 16, ∀ e < 16, Nat.digitChar d = Nat.digitChar e → d = e := by decide
  exact hall d hd e he h

/-- Two numerals of one base with sixteen digits at most are those of one number. -/
theorem toDigits_inj {b : ℕ} (hb : 1 < b) (hb' : b ≤ 16) {m n : ℕ}
    (h : Nat.toDigits b m = Nat.toDigits b n) : m = n := by
  induction m using Nat.strong_induction_on generalizing n with
  | _ m ih =>
      rcases Nat.lt_or_ge m b with hm | hm <;> rcases Nat.lt_or_ge n b with hn | hn
      · rw [Nat.toDigits_of_lt_base hm, Nat.toDigits_of_lt_base hn, List.singleton_inj] at h
        exact digitChar_inj (by omega) (by omega) h
      · -- a single digit is not two
        rw [Nat.toDigits_of_lt_base hm, Nat.toDigits_of_base_le hb hn] at h
        have hlen := congrArg List.length h
        have hpos : 0 < (Nat.toDigits b (n / b)).length := Nat.length_toDigits_pos
        simp only [List.length_append, List.length_singleton] at hlen
        omega
      · rw [Nat.toDigits_of_base_le hb hm, Nat.toDigits_of_lt_base hn] at h
        have hlen := congrArg List.length h
        have hpos : 0 < (Nat.toDigits b (m / b)).length := Nat.length_toDigits_pos
        simp only [List.length_append, List.length_singleton] at hlen
        omega
      · rw [Nat.toDigits_of_base_le hb hm, Nat.toDigits_of_base_le hb hn] at h
        obtain ⟨hhigh, hlow⟩ := List.append_inj' h rfl
        have hdiv : m / b = n / b := ih (m / b) (Nat.div_lt_self (by omega) hb) hhigh
        have hmod : m % b = n % b :=
          digitChar_inj ((Nat.mod_lt m (by omega)).trans_le hb')
            ((Nat.mod_lt n (by omega)).trans_le hb') (List.singleton_inj.mp hlow)
        rw [← Nat.div_add_mod m b, ← Nat.div_add_mod n b, hdiv, hmod]

/-! ## Fields -/

/-- A field ends where its terminator first stands. -/
theorem field_inj {α : Type*} {stop : α} {field field' rest rest' : List α}
    (hfield : stop ∉ field) (hfield' : stop ∉ field')
    (h : field ++ stop :: rest = field' ++ stop :: rest') : field = field' ∧ rest = rest' := by
  induction field generalizing field' with
  | nil =>
      cases field' with
      | nil => exact ⟨rfl, (List.cons.inj h).2⟩
      | cons c field' =>
          obtain ⟨rfl, -⟩ := List.cons.inj h
          exact absurd (List.mem_cons_self ..) hfield'
  | cons c field ih =>
      rw [List.mem_cons, not_or] at hfield
      cases field' with
      | nil => exact absurd (List.cons.inj h).1.symm hfield.1
      | cons c' field' =>
          rw [List.mem_cons, not_or] at hfield'
          obtain ⟨rfl, htail⟩ := List.cons.inj h
          obtain ⟨rfl, hrest⟩ := ih hfield.2 hfield'.2 htail
          exact ⟨rfl, hrest⟩

/-! ## Tags -/

section Tags

variable {τ α : Type*} (tag : τ → List α)

/-- No tag starts another. -/
def Separate (tags : List τ) : Prop :=
  ∀ t ∈ tags, ∀ u ∈ tags, tag t <+: tag u → t = u

/-- Find the tag a text starts with. -/
def untag [DecidableEq α] (tags : List τ) (text : List α) : Option (τ × List α) :=
  tags.findSome? fun t =>
    if (tag t).isPrefixOf text then some (t, text.drop (tag t).length) else none

variable {tag}

theorem Separate.of_prefix {tags : List τ} (h : Separate tag tags) {t u : τ} (ht : t ∈ tags)
    (hu : u ∈ tags) {text : List α} (hpre : tag u <+: tag t ++ text) : u = t := by
  rcases List.prefix_or_prefix_of_prefix hpre (List.prefix_append (tag t) text) with hut | htu
  · exact h u hu t ht hut
  · exact (h t ht u hu htu).symm

/-- What has been tagged is taken apart again. -/
theorem untag_tag [DecidableEq α] {tags : List τ} (h : Separate tag tags) {t : τ} (ht : t ∈ tags)
    (text : List α) : untag tag tags (tag t ++ text) = some (t, text) := by
  obtain ⟨pre, post, rfl⟩ := List.append_of_mem ht
  have hself : (tag t).isPrefixOf (tag t ++ text) = true :=
    List.isPrefixOf_iff_prefix.mpr (List.prefix_append _ _)
  rw [untag, List.findSome?_append, List.findSome?_cons, if_pos hself, List.drop_left]
  -- an earlier tag that fits is the same one
  cases hpre : pre.findSome? fun u =>
      if (tag u).isPrefixOf (tag t ++ text) then some (u, (tag t ++ text).drop (tag u).length)
      else none with
  | none => rfl
  | some found =>
      obtain ⟨u, hu, hfound⟩ := List.exists_of_findSome?_eq_some hpre
      by_cases hfits : (tag u).isPrefixOf (tag t ++ text) = true
      · rw [if_pos hfits, Option.some.injEq] at hfound
        obtain rfl := h.of_prefix ht (List.mem_append_left _ hu)
          (List.isPrefixOf_iff_prefix.mp hfits)
        rw [← hfound, List.drop_left]
        rfl
      · rw [if_neg hfits] at hfound
        cases hfound

end Tags

end PipelineBench.Text
