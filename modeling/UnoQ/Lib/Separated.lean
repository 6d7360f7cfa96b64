import Mathlib.Data.List.Basic

/-!
# Two fields around a separator

When one of the fields is free of the separator, the text determines both.
-/

namespace Separated

variable {α : Type}

/-- The first separator ends the first field. -/
theorem first_inj {sep : α} {a b p q : List α} (ha : sep ∉ a) (hb : sep ∉ b)
    (h : a ++ sep :: p = b ++ sep :: q) : a = b ∧ p = q := by
  induction a generalizing b with
  | nil =>
    cases b with
    | nil =>
      simp only [List.nil_append, List.cons.injEq] at h
      exact ⟨rfl, h.2⟩
    | cons y ys =>
      simp only [List.nil_append, List.cons_append, List.cons.injEq] at h
      rw [h.1] at hb
      exact absurd List.mem_cons_self hb
  | cons x xs ih =>
    cases b with
    | nil =>
      simp only [List.nil_append, List.cons_append, List.cons.injEq] at h
      rw [← h.1] at ha
      exact absurd List.mem_cons_self ha
    | cons y ys =>
      simp only [List.cons_append, List.cons.injEq] at h
      have hxs : sep ∉ xs := fun hx => ha (List.mem_cons_of_mem x hx)
      have hys : sep ∉ ys := fun hy => hb (List.mem_cons_of_mem y hy)
      obtain ⟨heq, hrest⟩ := ih hxs hys h.2
      exact ⟨by rw [h.1, heq], hrest⟩

/-- The last separator begins the last field. -/
theorem last_inj {sep : α} {a b p q : List α} (hp : sep ∉ p) (hq : sep ∉ q)
    (h : a ++ sep :: p = b ++ sep :: q) : a = b ∧ p = q := by
  have hrev := congrArg List.reverse h
  simp only [List.reverse_append, List.reverse_cons, List.append_assoc, List.singleton_append] at hrev
  have hp' : sep ∉ p.reverse := fun hx => hp (List.mem_reverse.mp hx)
  have hq' : sep ∉ q.reverse := fun hx => hq (List.mem_reverse.mp hx)
  obtain ⟨hpq, hab⟩ := first_inj hp' hq' hrev
  exact ⟨List.reverse_inj.mp hab, List.reverse_inj.mp hpq⟩

end Separated
