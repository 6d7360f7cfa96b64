import Mathlib.Algebra.Group.Hom.Defs
import Mathlib.Algebra.Order.Ring.Defs
import Mathlib.Data.List.Basic
import Mathlib.Data.Nat.Cast.Order.Ring
import Mathlib.Tactic.Linarith

/-!
# Token budgets

An activity that spends one token each time, from a credit that never exceeds a capacity and grows
at most as some additive function of time allows, happens in no interval more often than the
capacity plus what the length of the interval allows. The credit is what may still be spent, kept
wherever: in a bucket, or by those who have taken a token and not used it yet.
-/

namespace TokenBudget

/-! ### Intervals -/

section Intervals

variable {α : Type} [LinearOrder α]

/-- The timestamps from `a` on. -/
def since (a : α) (l : List α) : List α := l.filter fun x => a ≤ x

/-- The timestamps in the interval `[a, b]`. -/
def between (a b : α) (l : List α) : List α := l.filter fun x => a ≤ x ∧ x ≤ b

theorem between_length_le (a b : α) (l : List α) :
    (between a b l).length ≤ (since a l).length := by
  refine (List.monotone_filter_right l fun x hx => ?_).length_le
  have hx' : a ≤ x ∧ x ≤ b := by simpa using hx
  simpa using hx'.1

theorem since_eq_nil {a now : α} {l : List α} (hpast : ∀ x ∈ l, x ≤ now) (h : now < a) :
    since a l = [] := by
  refine List.filter_eq_nil_iff.mpr fun x hx => ?_
  have hlt := lt_of_le_of_lt (hpast x hx) h
  simpa using hlt

theorem since_snoc {a now : α} (ha : a ≤ now) (l : List α) :
    since a (l ++ [now]) = since a l ++ [now] := by
  unfold since
  rw [List.filter_append]
  simp [ha]

/-- A timestamp outside the interval is not seen in it. -/
theorem between_snoc {a b now : α} (h : now < a ∨ b < now) (l : List α) :
    between a b (l ++ [now]) = between a b l := by
  unfold between
  rw [List.filter_append]
  rcases h with h | h
  · simp [h]
  · simp [h]

end Intervals

/-! ### Budgets -/

variable {α K : Type} [AddCommGroup α] [LinearOrder α] [CommRing K] [LinearOrder K]

/-- The spendings `l` up to the time `now`, at which the credit is left. -/
structure Kept (capacity : K) (gain : α →+ K) (l : List α) (credit : K) (now : α) : Prop where
  past : ∀ x ∈ l, x ≤ now
  bounded : credit ≤ capacity
  spent : ∀ a ≤ now, ((since a l).length : K) + credit ≤ capacity + gain (now - a)
  windows : ∀ a b, a ≤ b → ((between a b l).length : K) ≤ capacity + gain (b - a)

variable {capacity credit credit' : K} {gain : α →+ K} {l : List α} {now now' : α}

theorem gain_nonneg (hgain : Monotone gain) {d : α} (hd : 0 ≤ d) : 0 ≤ gain d := by
  have h := hgain hd
  rwa [map_zero] at h

variable [IsStrictOrderedRing K]

/-- Credit is given up. -/
theorem Kept.drop (h : Kept capacity gain l credit now) (hle : credit' ≤ credit) :
    Kept capacity gain l credit' now where
  past := h.past
  bounded := hle.trans h.bounded
  spent a ha := by
    have hspent := h.spent a ha
    linarith
  windows := h.windows

variable [IsOrderedAddMonoid α]

theorem kept_start (hgain : Monotone gain) (hcap : 0 ≤ capacity) (hcredit : credit ≤ capacity)
    (now : α) : Kept capacity gain [] credit now where
  past := nofun
  bounded := hcredit
  spent a ha := by
    have h := gain_nonneg hgain (sub_nonneg.mpr ha)
    simp only [since, List.filter_nil, List.length_nil, Nat.cast_zero]
    linarith
  windows a b hab := by
    have h := gain_nonneg hgain (sub_nonneg.mpr hab)
    simp only [between, List.filter_nil, List.length_nil, Nat.cast_zero]
    linarith

/-- Time passes, and the credit grows by no more than it allows and not over the capacity. -/
theorem Kept.wait (h : Kept capacity gain l credit now) (hgain : Monotone gain) (hnow : now ≤ now')
    (hgrow : credit' ≤ credit + gain (now' - now)) (hcap : credit' ≤ capacity) :
    Kept capacity gain l credit' now' where
  past x hx := (h.past x hx).trans hnow
  bounded := hcap
  spent a ha := by
    by_cases hle : a ≤ now
    · have hspent := h.spent a hle
      have hsum : gain (now' - a) = gain (now' - now) + gain (now - a) := by
        rw [← map_add, sub_add_sub_cancel]
      linarith
    · have hgap := gain_nonneg hgain (sub_nonneg.mpr ha)
      rw [since_eq_nil h.past (not_le.mp hle), List.length_nil, Nat.cast_zero]
      linarith
  windows := h.windows

/-- A token is spent. -/
theorem Kept.spend (h : Kept capacity gain l credit now) (hgain : Monotone gain)
    (hone : 1 ≤ credit) : Kept capacity gain (l ++ [now]) (credit - 1) now where
  past x hx := by
    rcases List.mem_append.mp hx with hx | hx
    · exact h.past x hx
    · exact (List.mem_singleton.mp hx).le
  bounded := by
    have hcap := h.bounded
    linarith
  spent a ha := by
    have hspent := h.spent a ha
    rw [since_snoc ha l, List.length_append, List.length_singleton, Nat.cast_add, Nat.cast_one]
    linarith
  windows a b hab := by
    by_cases hb : now ≤ b
    · by_cases ha : a ≤ now
      · have hspent := h.spent a ha
        have hmono : gain (now - a) ≤ gain (b - a) := hgain (sub_le_sub_right hb a)
        have hle : ((between a b (l ++ [now])).length : K) ≤ ((since a l).length : K) + 1 := by
          have hlen := between_length_le a b (l ++ [now])
          rw [since_snoc ha l, List.length_append, List.length_singleton] at hlen
          exact_mod_cast hlen
        linarith
      · rw [between_snoc (.inl (not_le.mp ha)) l]
        exact h.windows a b hab
    · rw [between_snoc (.inr (not_le.mp hb)) l]
      exact h.windows a b hab

end TokenBudget
