import Mathlib.Data.List.Induction

/-!
# Chronological histories

A history is a list of events, oldest first, that only ever grows at its end.
`Before` orders two of its events; `Causal` says that every event of the history
was justified by what had happened when it was recorded.
-/

namespace History

variable {α β : Type}

def Before (l : List α) (a b : α) : Prop := ∃ x y z, l = x ++ a :: y ++ b :: z

/-- The relation `Q past a` holds of every event `a` of the history, `past` being what precedes it. -/
def Causal (Q : List α → α → Prop) (l : List α) : Prop :=
  ∀ past a rest, l = past ++ a :: rest → Q past a

theorem Before.append {l : List α} {a b : α} (h : Before l a b) (more : List α) :
    Before (l ++ more) a b := by
  obtain ⟨x, y, z, rfl⟩ := h
  exact ⟨x, y, z ++ more, by simp⟩

theorem Before.snoc {l : List α} {a : α} (h : a ∈ l) (b : α) : Before (l ++ [b]) a b := by
  obtain ⟨x, y, rfl⟩ := List.append_of_mem h
  exact ⟨x, y, [], by simp⟩

theorem Before.mem_left {l : List α} {a b : α} (h : Before l a b) : a ∈ l := by
  obtain ⟨x, y, z, rfl⟩ := h
  simp

theorem causal_nil (Q : List α → α → Prop) : Causal Q [] := by
  intro past a rest h
  simp at h

theorem causal_snoc {Q : List α → α → Prop} {l : List α} {a : α} :
    Causal Q (l ++ [a]) ↔ Causal Q l ∧ Q l a := by
  constructor
  · intro h
    refine ⟨?_, h l a [] (by simp)⟩
    intro past b rest hl
    exact h past b (rest ++ [a]) (by simp [hl])
  · rintro ⟨hl, ha⟩ past b rest h
    rcases List.eq_nil_or_concat rest with rfl | ⟨rest', c, rfl⟩
    · obtain ⟨rfl, hb⟩ := List.append_inj' h rfl
      cases hb
      exact ha
    · have hsplit : l ++ [a] = (past ++ b :: rest') ++ [c] := by simp [h]
      obtain ⟨hl', -⟩ := List.append_inj' hsplit rfl
      exact hl past b rest' hl'

theorem causal_append {Q : List α → α → Prop} {l : List α} (more : List α) (hl : Causal Q l)
    (hm : ∀ past a rest, more = past ++ a :: rest → Q (l ++ past) a) : Causal Q (l ++ more) := by
  induction more using List.reverseRecOn with
  | nil => simpa using hl
  | append_singleton more a ih =>
    rw [← List.append_assoc, causal_snoc]
    refine ⟨ih (fun past b rest h => hm past b (rest ++ [a]) (by simp [h])), ?_⟩
    exact hm more a [] (by simp)

theorem Causal.imp {Q R : List α → α → Prop} {l : List α} (h : Causal Q l)
    (hqr : ∀ past a, Q past a → R past a) : Causal R l :=
  fun past a rest hl => hqr past a (h past a rest hl)

end History
