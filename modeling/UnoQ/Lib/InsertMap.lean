import Mathlib.Data.List.Nodup

/-!
# Insertion-ordered maps

The finite map of scripting languages: iteration is in order of first insertion,
overwriting a key keeps its place, and a key never occurs twice. The last fact is
a field, so a map that breaks it cannot be built.
-/

structure InsertMap (κ α : Type) where
  entries : List (κ × α)
  nodup : (entries.map Prod.fst).Nodup

namespace InsertMap

variable {κ α : Type}

def empty : InsertMap κ α := ⟨[], List.nodup_nil⟩

def keys (m : InsertMap κ α) : List κ := m.entries.map Prod.fst

def size (m : InsertMap κ α) : ℕ := m.entries.length

variable [DecidableEq κ]

def lookup (k : κ) : List (κ × α) → Option α
  | [] => none
  | p :: rest => if p.1 = k then some p.2 else lookup k rest

def get (m : InsertMap κ α) (k : κ) : Option α := lookup k m.entries

def has (m : InsertMap κ α) (k : κ) : Bool := (m.get k).isSome

def put (k : κ) (v : α) : List (κ × α) → List (κ × α)
  | [] => [(k, v)]
  | p :: rest => if p.1 = k then (k, v) :: rest else p :: put k v rest

def drop (k : κ) (l : List (κ × α)) : List (κ × α) := l.filter fun p => decide (p.1 ≠ k)

theorem put_keys (k : κ) (v : α) (l : List (κ × α)) :
    (put k v l).map Prod.fst =
      if k ∈ l.map Prod.fst then l.map Prod.fst else l.map Prod.fst ++ [k] := by
  induction l with
  | nil => simp [put]
  | cons p rest ih =>
    by_cases hp : p.1 = k
    · simp [put, hp]
    · have hk : k ≠ p.1 := fun h => hp h.symm
      simp only [put, hp, if_false, List.map_cons, ih, List.mem_cons, hk, false_or]
      split <;> rfl

theorem put_nodup (k : κ) (v : α) (l : List (κ × α)) (h : (l.map Prod.fst).Nodup) :
    ((put k v l).map Prod.fst).Nodup := by
  rw [put_keys]
  split
  · exact h
  next hk =>
    rw [← List.concat_eq_append]
    exact h.concat hk

theorem drop_nodup (k : κ) (l : List (κ × α)) (h : (l.map Prod.fst).Nodup) :
    ((drop k l).map Prod.fst).Nodup :=
  h.sublist (List.Sublist.map _ (List.filter_sublist))

def set (m : InsertMap κ α) (k : κ) (v : α) : InsertMap κ α :=
  ⟨put k v m.entries, put_nodup k v m.entries m.nodup⟩

def delete (m : InsertMap κ α) (k : κ) : InsertMap κ α :=
  ⟨drop k m.entries, drop_nodup k m.entries m.nodup⟩

theorem lookup_put (k k' : κ) (v : α) (l : List (κ × α)) :
    lookup k' (put k v l) = if k = k' then some v else lookup k' l := by
  induction l with
  | nil => simp [put, lookup]
  | cons p rest ih =>
    by_cases hp : p.1 = k
    · by_cases hk : k = k' <;> simp [put, lookup, hp, hk]
    · by_cases hk : k = k'
      · subst hk
        simp [put, lookup, hp, ih]
      · simp [put, lookup, hp, ih, hk]

theorem lookup_drop (k k' : κ) (l : List (κ × α)) :
    lookup k' (drop k l) = if k = k' then none else lookup k' l := by
  induction l with
  | nil => simp [drop, lookup]
  | cons p rest ih =>
    unfold drop at ih ⊢
    by_cases hp : p.1 = k
    · by_cases hk : k = k' <;> simp_all [lookup]
    · by_cases hk : k = k'
      · subst hk
        simp_all [lookup]
      · simp_all [lookup]

theorem lookup_eq_some {k : κ} {v : α} {l : List (κ × α)} (hn : (l.map Prod.fst).Nodup) :
    lookup k l = some v ↔ (k, v) ∈ l := by
  induction l with
  | nil => simp [lookup]
  | cons p rest ih =>
    obtain ⟨pk, pv⟩ := p
    simp only [List.map_cons, List.nodup_cons] at hn
    simp only [lookup, List.mem_cons, Prod.mk.injEq]
    split
    next hp =>
      subst hp
      constructor
      · intro h
        exact Or.inl ⟨rfl, (Option.some.inj h).symm⟩
      · rintro (⟨-, rfl⟩ | h)
        · rfl
        · exact absurd (List.mem_map_of_mem (f := Prod.fst) h) hn.1
    next hp =>
      rw [ih hn.2]
      constructor
      · exact Or.inr
      · rintro (⟨rfl, -⟩ | h)
        · exact absurd rfl hp
        · exact h

/-- A key occurs in one place. -/
theorem filter_key {k : κ} {v : α} {l : List (κ × α)} (hn : (l.map Prod.fst).Nodup)
    (h : (k, v) ∈ l) : l.filter (fun p => decide (p.1 = k)) = [(k, v)] := by
  induction l with
  | nil => contradiction
  | cons p rest ih =>
    rw [List.map_cons, List.nodup_cons] at hn
    rcases List.mem_cons.mp h with rfl | hrest
    · have hnone : rest.filter (fun p => decide (p.1 = k)) = [] := by
        rw [List.filter_eq_nil_iff]
        intro q hq hk
        exact hn.1 (List.mem_map.mpr ⟨q, hq, of_decide_eq_true hk⟩)
      rw [List.filter_cons_of_pos (by simp), hnone]
    · have hne : ¬ p.1 = k := fun hk => hn.1 (hk ▸ List.mem_map_of_mem (f := Prod.fst) hrest)
      rw [List.filter_cons_of_neg (by simp [hne]), ih hn.2 hrest]

@[simp] theorem get_empty (k : κ) : (empty : InsertMap κ α).get k = none := rfl

theorem get_set (m : InsertMap κ α) (k k' : κ) (v : α) :
    (m.set k v).get k' = if k = k' then some v else m.get k' := lookup_put k k' v m.entries

theorem get_delete (m : InsertMap κ α) (k k' : κ) :
    (m.delete k).get k' = if k = k' then none else m.get k' := lookup_drop k k' m.entries

@[simp] theorem get_set_self (m : InsertMap κ α) (k : κ) (v : α) : (m.set k v).get k = some v := by
  simp [get_set]

@[simp] theorem get_delete_self (m : InsertMap κ α) (k : κ) : (m.delete k).get k = none := by
  simp [get_delete]

theorem get_set_ne (m : InsertMap κ α) {k k' : κ} (v : α) (h : k ≠ k') :
    (m.set k v).get k' = m.get k' := by
  simp [get_set, h]

theorem get_delete_ne (m : InsertMap κ α) {k k' : κ} (h : k ≠ k') :
    (m.delete k).get k' = m.get k' := by
  simp [get_delete, h]

theorem get_eq_some_iff (m : InsertMap κ α) {k : κ} {v : α} : m.get k = some v ↔ (k, v) ∈ m.entries :=
  lookup_eq_some m.nodup

theorem get_delete_eq_some {m : InsertMap κ α} {k k' : κ} {v : α} (h : (m.delete k).get k' = some v) :
    k' ≠ k ∧ m.get k' = some v := by
  rw [get_delete] at h
  split at h
  · contradiction
  next hk => exact ⟨fun he => hk he.symm, h⟩

theorem get_set_eq_some {m : InsertMap κ α} {k k' : κ} {v w : α} (h : (m.set k v).get k' = some w) :
    (k' = k ∧ w = v) ∨ (k' ≠ k ∧ m.get k' = some w) := by
  rw [get_set] at h
  split at h
  next hk => exact Or.inl ⟨hk.symm, (Option.some.inj h).symm⟩
  next hk => exact Or.inr ⟨fun he => hk he.symm, h⟩

@[simp] theorem has_eq_true {m : InsertMap κ α} {k : κ} : m.has k = true ↔ ∃ v, m.get k = some v := by
  simp [has, Option.isSome_iff_exists]

theorem mem_keys {m : InsertMap κ α} {k : κ} : k ∈ m.keys ↔ m.has k = true := by
  rw [has_eq_true]
  constructor
  · intro h
    obtain ⟨p, hp, rfl⟩ := List.mem_map.mp h
    exact ⟨p.2, m.get_eq_some_iff.mpr hp⟩
  · intro h
    obtain ⟨v, hv⟩ := h
    exact List.mem_map.mpr ⟨(k, v), m.get_eq_some_iff.mp hv, rfl⟩

theorem has_set (m : InsertMap κ α) (k k' : κ) (v : α) :
    (m.set k v).has k' = true ↔ k = k' ∨ m.has k' = true := by
  unfold has
  rw [get_set]
  split
  next h => simp [h]
  next h => simp [h]

theorem has_eq_false {m : InsertMap κ α} {k : κ} : m.has k = false ↔ m.get k = none := by
  simp [has]

end InsertMap
