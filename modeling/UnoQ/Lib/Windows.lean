import Mathlib.Algebra.Order.Group.Basic
import Mathlib.Data.List.Basic
import Mathlib.Order.Basic

/-!
# Timestamps in sliding windows

A log of timestamps is capped by `n` for windows of width `w` when no interval
`(t - w, t]`, wherever it ends, holds more than `n` of them. A log stays capped when a
timestamp is added at a moment at which fewer than `n` of the older ones are still in the
window. Two logs agree after a horizon when no window that begins there tells them apart.
-/

namespace Windows

variable {α : Type} [LinearOrder α]

/-- The timestamps after a cutoff, in order. -/
def after (cutoff : α) (l : List α) : List α := l.filter fun x => cutoff < x

/-- The timestamps in the interval `(a, b]`. -/
def within (a b : α) (l : List α) : List α := l.filter fun x => a < x ∧ x ≤ b

theorem after_append (c : α) (l l' : List α) : after c (l ++ l') = after c l ++ after c l' :=
  List.filter_append ..

theorem within_append (a b : α) (l l' : List α) :
    within a b (l ++ l') = within a b l ++ within a b l' := List.filter_append ..

theorem within_sublist_after {a b c : α} (h : c ≤ a) (l : List α) :
    (within a b l).Sublist (after c l) := by
  refine List.monotone_filter_right l fun x hx => ?_
  have hx' : a < x ∧ x ≤ b := by simpa using hx
  simpa using lt_of_le_of_lt h hx'.1

theorem after_after {c d : α} (h : c ≤ d) (l : List α) : after d (after c l) = after d l := by
  unfold after
  rw [List.filter_filter]
  refine List.filter_congr fun x _ => ?_
  have himp : d < x → c < x := lt_of_le_of_lt h
  by_cases hd : d < x
  · simp [hd, himp hd]
  · simp [hd]

theorem length_after_le {c d : α} (h : c ≤ d) (l : List α) :
    (after d l).length ≤ (after c l).length := by
  rw [← after_after h]
  exact List.length_filter_le ..

/-! ### Logs that differ before a horizon -/

/-- The two logs have the same timestamps after the horizon. -/
def Agree (horizon : α) (l l' : List α) : Prop := ∀ c, horizon ≤ c → after c l = after c l'

namespace Agree

variable {c d : α} {l l' : List α}

theorem refl (c : α) (l : List α) : Agree c l l := fun _ _ => rfl

theorem mono (h : Agree c l l') (hcd : c ≤ d) : Agree d l l' := fun e he => h e (hcd.trans he)

/-- Dropping what lies before the horizon is not seen after it. -/
theorem trim (h : Agree c l l') : Agree c (after c l) l' := by
  intro e he
  rw [after_after he]
  exact h e he

theorem snoc (h : Agree c l l') (x : α) : Agree c (l ++ [x]) (l' ++ [x]) := by
  intro e he
  rw [after_append, after_append, h e he]

end Agree

/-! ### Capped logs -/

section Capped

variable [AddCommGroup α]

def Capped (n : ℕ) (w : α) (l : List α) : Prop := ∀ t, (within (t - w) t l).length ≤ n

theorem capped_nil (n : ℕ) (w : α) : Capped n w [] := fun _ => Nat.zero_le n

/-- A timestamp may be added at `now` if, at a reading of the clock that is not later, fewer than
`n` of the older ones were in the window. -/
theorem Capped.snoc [IsOrderedAddMonoid α] {n : ℕ} {w now read : α} {l : List α}
    (h : Capped n w l) (hread : read ≤ now) (hroom : (after (read - w) l).length < n) :
    Capped n w (l ++ [now]) := by
  intro t
  rw [within_append]
  by_cases ht : now ≤ t
  · have hcut : read - w ≤ t - w := sub_le_sub_right (hread.trans ht) w
    have hold := (within_sublist_after (b := t) hcut l).length_le
    have hnew : (within (t - w) t [now]).length ≤ 1 := List.length_filter_le ..
    rw [List.length_append]
    omega
  · have hnew : within (t - w) t [now] = [] := by
      simp [within, ht]
    rw [hnew, List.append_nil]
    exact h t

end Capped

end Windows
