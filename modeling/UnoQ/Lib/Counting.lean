import Mathlib.Data.Nat.Count

/-!
# Counting the indices that satisfy a predicate

How the number of indices below a bound changes when the predicate changes at one place
or the bound grows by one.
-/

namespace Counting

theorem count_congr {p q : ℕ → Bool} {n : ℕ} (h : ∀ x < n, p x = q x) :
    Nat.count (fun x => p x = true) n = Nat.count (fun x => q x = true) n := by
  rw [Nat.count_eq_card_filter_range, Nat.count_eq_card_filter_range]
  refine congrArg Finset.card (Finset.filter_congr fun x hx => ?_)
  rw [h x (Finset.mem_range.mp hx)]

/-- Changing a predicate at one place changes its count by what happens there. -/
theorem count_change {p q : ℕ → Bool} {c : ℕ} :
    ∀ {n : ℕ}, c < n → (∀ x, x ≠ c → p x = q x) →
      Nat.count (fun x => p x = true) n + (q c).toNat =
        Nat.count (fun x => q x = true) n + (p c).toNat := by
  intro n
  induction n with
  | zero =>
    intro hc
    omega
  | succ n ih =>
    intro hc h
    rw [Nat.count_succ, Nat.count_succ]
    by_cases hn : c = n
    · subst hn
      rw [count_congr fun x hx => h x (Nat.ne_of_lt hx)]
      cases p c <;> cases q c <;> simp
    · have hlt : c < n := by omega
      have := ih hlt h
      rw [h n fun he => hn he.symm]
      omega

/-- A bound that grows by one counts the new place. -/
theorem count_grow {p q : ℕ → Bool} {n : ℕ} (h : ∀ x, x ≠ n → p x = q x) :
    Nat.count (fun x => p x = true) (n + 1) =
      Nat.count (fun x => q x = true) n + (p n).toNat := by
  rw [Nat.count_succ, count_congr fun x hx => h x (Nat.ne_of_lt hx)]
  cases p n <;> simp

theorem not_of_count_eq_zero {p : ℕ → Bool} {n x : ℕ}
    (h : Nat.count (fun x => p x = true) n = 0) (hx : x < n) : p x = false := by
  rw [Nat.count_iff_forall_not] at h
  exact Bool.eq_false_iff.mpr (h x hx)

theorem count_eq_zero {p : ℕ → Bool} {n : ℕ} (h : ∀ x < n, p x = false) :
    Nat.count (fun x => p x = true) n = 0 := by
  rw [Nat.count_iff_forall_not]
  intro x hx
  rw [h x hx]
  exact Bool.false_ne_true

/-- What is true of at most one index is counted at most once. -/
theorem count_le_one {p : ℕ → Bool} (h : ∀ x y, p x = true → p y = true → x = y) (n : ℕ) :
    Nat.count (fun x => p x = true) n ≤ 1 := by
  induction n with
  | zero => exact Nat.zero_le 1
  | succ n ih =>
    rw [Nat.count_succ]
    by_cases hn : p n = true
    · have hzero : Nat.count (fun x => p x = true) n = 0 := by
        refine count_eq_zero fun x hx => ?_
        by_contra hpx
        have hxn := h x n (by simpa using hpx) hn
        omega
      rw [if_pos hn, hzero]
    · rw [if_neg hn]
      exact ih

end Counting
