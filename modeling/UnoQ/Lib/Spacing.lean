import Mathlib.Algebra.Order.Ring.Defs
import Mathlib.Data.List.Basic
import Mathlib.Data.Nat.Cast.Order.Ring
import Mathlib.Tactic.Linarith

/-!
# Timestamps that keep their distance

Timestamps each of which comes at least `d` after all before it: an interval holds at most one more
of them than its length has room for steps of `d`.
-/

namespace Spacing

variable {α : Type}

def Spaced [Add α] [LE α] (d : α) (l : List α) : Prop := l.Pairwise fun x y => x + d ≤ y

theorem spaced_snoc [Add α] [LE α] {d now : α} {l : List α} (h : Spaced d l) (hnow : ∀ x ∈ l, x + d ≤ now) :
    Spaced d (l ++ [now]) := by
  refine List.pairwise_append.mpr ⟨h, List.pairwise_singleton _ _, fun x hx y hy => ?_⟩
  rw [List.mem_singleton.mp hy]
  exact hnow x hx

variable [CommRing α] [LinearOrder α] [IsStrictOrderedRing α]

theorem Spaced.length_mul_le {d b : α} (hd : 0 ≤ d) {l : List α} (h : Spaced d l)
    (hb : ∀ x ∈ l, x ≤ b) :
    ∀ {a : α}, a ≤ b → (∀ x ∈ l, a ≤ x) → (l.length : α) * d ≤ d + (b - a) := by
  induction l with
  | nil =>
    intro a hab _
    rw [List.length_nil, Nat.cast_zero, zero_mul]
    exact add_nonneg hd (sub_nonneg.mpr hab)
  | cons x rest ih =>
    intro a hab ha
    obtain ⟨hx, hrest⟩ := List.pairwise_cons.mp h
    have hlater : ∀ y ∈ rest, a + d ≤ y := by
      intro y hy
      have hay := ha x List.mem_cons_self
      exact (add_le_add_left hay d).trans (hx y hy)
    rw [List.length_cons, Nat.cast_succ, add_mul, one_mul]
    by_cases hroom : a + d ≤ b
    · have hle := ih hrest (fun y hy => hb y (List.mem_cons_of_mem x hy)) hroom hlater
      linarith
    · -- There is no room for another one.
      have hnil : rest = [] := by
        refine List.eq_nil_iff_forall_not_mem.mpr fun y hy => hroom ?_
        exact (hlater y hy).trans (hb y (List.mem_cons_of_mem x hy))
      rw [hnil, List.length_nil, Nat.cast_zero, zero_mul, zero_add]
      linarith

/-- How many of them lie between `a` and `b`. -/
theorem Spaced.between {d a b : α} (hd : 0 ≤ d) {l : List α} (h : Spaced d l) (hab : a ≤ b) :
    ((l.filter fun x => a ≤ x ∧ x ≤ b).length : α) * d ≤ d + (b - a) := by
  have hmem : ∀ x ∈ l.filter (fun x => a ≤ x ∧ x ≤ b), a ≤ x ∧ x ≤ b :=
    fun x hx => of_decide_eq_true (List.mem_filter.mp hx).2
  have hspaced : Spaced d (l.filter fun x => a ≤ x ∧ x ≤ b) := h.sublist List.filter_sublist
  exact hspaced.length_mul_le hd (fun x hx => (hmem x hx).2) hab fun x hx => (hmem x hx).1

end Spacing
