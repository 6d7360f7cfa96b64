import Mathlib.Data.List.Basic

/-!
# Decoders of concatenated items

A decoder reads one item after the other until its input ends, or until it stops at something that
it cannot read. Nothing is said of what an item looks like: an item is what the decoder reads as one.
What is left behind the last item is either the beginning of another one, which more input may
complete, or will not become an item whatever follows.
-/

namespace SequentialDecoding

variable {β α : Type}

/-- The decoder reads the input as one item, and nothing else. -/
def Accepts (decode : List β → List α × Bool) (item : List β) (v : α) : Prop :=
  decode item = ([v], false)

/-- The input begins with no item. -/
def Unfinished (decode : List β → List α × Bool) (t : List β) : Prop :=
  ∀ item rest v, t = item ++ rest → ¬ Accepts decode item v

/-- An item that has not come completely, perhaps none of it. -/
def Beginning (decode : List β → List α × Bool) (t : List β) : Prop :=
  t = [] ∨ ∃ u v, u ≠ [] ∧ Accepts decode (t ++ u) v

/-- A decoder that takes items from the front of its input. The flag tells that it stopped there. -/
structure Sequential (decode : List β → List α × Bool) : Prop where
  nil : decode [] = ([], false)
  next : ∀ item rest v, Accepts decode item v →
    decode (item ++ rest) = (v :: (decode rest).1, (decode rest).2)
  stops : ∀ t, t ≠ [] → Unfinished decode t → decode t = ([], true)

/-- Items, each with what it is read as. -/
def bytes (items : List (List β × α)) : List β := (items.map Prod.fst).flatten

def values (items : List (List β × α)) : List α := items.map Prod.snd

@[simp] theorem bytes_nil : bytes ([] : List (List β × α)) = [] := rfl

@[simp] theorem bytes_cons (p : List β × α) (items : List (List β × α)) :
    bytes (p :: items) = p.1 ++ bytes items := rfl

@[simp] theorem bytes_append (items items' : List (List β × α)) :
    bytes (items ++ items') = bytes items ++ bytes items' := by
  simp [bytes]

@[simp] theorem values_cons (p : List β × α) (items : List (List β × α)) :
    values (p :: items) = p.2 :: values items := rfl

/-- The input taken apart: its items, and what is left. -/
structure Splits (decode : List β → List α × Bool) (s : List β) (items : List (List β × α))
    (t : List β) : Prop where
  read : ∀ p ∈ items, Accepts decode p.1 p.2
  eq : s = bytes items ++ t
  left : Unfinished decode t

/-- The input is items and a beginning of another one. -/
def Decodable (decode : List β → List α × Bool) (s : List β) : Prop :=
  ∃ items t, (∀ p ∈ items, Accepts decode p.1 p.2) ∧ s = bytes items ++ t ∧ Beginning decode t

variable {decode : List β → List α × Bool} {s t u : List β} {items items' : List (List β × α)}

/-! ### One item -/

theorem Sequential.eq_nil (h : Sequential decode) (hs : decode s = ([], false)) : s = [] := by
  by_contra hne
  by_cases hu : Unfinished decode s
  · rw [h.stops s hne hu] at hs
    cases hs
  · simp only [Unfinished, not_forall, not_not] at hu
    obtain ⟨item, rest, v, rfl, hv⟩ := hu
    rw [h.next item rest v hv] at hs
    cases hs

theorem Sequential.ne_nil (h : Sequential decode) {item : List β} {v : α}
    (hv : Accepts decode item v) : item ≠ [] := by
  rintro rfl
  unfold Accepts at hv
  rw [h.nil] at hv
  cases hv

/-- No item is the beginning of another one. -/
theorem Sequential.whole (h : Sequential decode) {item : List β} {v w : α}
    (hv : Accepts decode item v) (hw : Accepts decode (item ++ u) w) : u = [] := by
  unfold Accepts at hw
  rw [h.next item u v hv, Prod.mk.injEq, List.cons.injEq] at hw
  exact h.eq_nil (Prod.ext hw.1.2 hw.2)

theorem Sequential.unfinished_nil (h : Sequential decode) : Unfinished decode [] := by
  intro item rest v heq hv
  exact h.ne_nil hv (List.append_eq_nil_iff.mp heq.symm).1

theorem Sequential.unfinished (h : Sequential decode) (ht : Beginning decode t) :
    Unfinished decode t := by
  rcases ht with rfl | ⟨u, w, hu, hw⟩
  · exact h.unfinished_nil
  · rintro item rest v rfl hv
    rw [List.append_assoc] at hw
    exact hu (List.append_eq_nil_iff.mp (h.whole hv hw)).2

theorem Beginning.initial (h : Beginning decode (s ++ t)) : Beginning decode s := by
  rcases h with hnil | ⟨u, v, hu, hv⟩
  · exact Or.inl (List.append_eq_nil_iff.mp hnil).1
  · rw [List.append_assoc] at hv
    exact Or.inr ⟨t ++ u, v, List.append_ne_nil_of_right_ne_nil t hu, hv⟩

/-! ### Taking an input apart -/

theorem Sequential.decode_items (h : Sequential decode) (t : List β) :
    ∀ items : List (List β × α), (∀ p ∈ items, Accepts decode p.1 p.2) →
      decode (bytes items ++ t) = (values items ++ (decode t).1, (decode t).2) := by
  intro items
  induction items with
  | nil => exact fun _ => rfl
  | cons p items ih =>
    intro hitems
    have hrest := ih fun q hq => hitems q (List.mem_cons_of_mem p hq)
    rw [bytes_cons, List.append_assoc, h.next _ _ _ (hitems p List.mem_cons_self), hrest,
      values_cons, List.cons_append]

theorem Sequential.decode_unfinished (h : Sequential decode) (ht : Unfinished decode t) :
    decode t = ([], !t.isEmpty) := by
  cases t with
  | nil => exact h.nil
  | cons b t => exact h.stops _ (List.cons_ne_nil b t) ht

theorem Splits.decode_eq (h : Sequential decode) (hs : Splits decode s items t) :
    decode s = (values items, !t.isEmpty) := by
  rw [hs.eq, h.decode_items t items hs.read, h.decode_unfinished hs.left, List.append_nil]

/-- There is one way to take an input apart. -/
theorem Sequential.split_unique (h : Sequential decode) : ∀ {items items' : List (List β × α)}
    {s t t' : List β}, Splits decode s items t → Splits decode s items' t' →
      items = items' ∧ t = t' := by
  intro items
  induction items with
  | nil =>
    intro items' s t t' hs hs'
    cases items' with
    | nil => exact ⟨rfl, hs.eq.symm.trans hs'.eq⟩
    | cons q items' =>
      have heq := hs.eq.symm.trans hs'.eq
      rw [bytes_cons, List.append_assoc] at heq
      exact absurd (hs'.read q List.mem_cons_self) (hs.left _ _ _ heq)
  | cons p items ih =>
    intro items' s t t' hs hs'
    have heq := hs.eq.symm.trans hs'.eq
    have hp := hs.read p List.mem_cons_self
    cases items' with
    | nil =>
      rw [bytes_cons, List.append_assoc] at heq
      exact absurd hp (hs'.left _ _ _ heq.symm)
    | cons q items' =>
      have hq := hs'.read q List.mem_cons_self
      rw [bytes_cons, bytes_cons, List.append_assoc, List.append_assoc] at heq
      have hfirst : p.1 = q.1 := by
        rcases List.append_eq_append_iff.mp heq with ⟨u, hu, -⟩ | ⟨u, hu, -⟩
        · rw [hu] at hq
          rw [hu, h.whole hp hq, List.append_nil]
        · rw [hu] at hp
          rw [hu, h.whole hq hp, List.append_nil]
      have hvalue : p.2 = q.2 := by
        unfold Accepts at hp hq
        rw [hfirst, hq, Prod.mk.injEq, List.cons.injEq] at hp
        exact hp.1.1.symm
      rw [hfirst] at heq
      have hrest := List.append_cancel_left heq
      obtain ⟨hitems, ht⟩ := ih
        ⟨fun x hx => hs.read x (List.mem_cons_of_mem p hx), rfl, hs.left⟩
        ⟨fun x hx => hs'.read x (List.mem_cons_of_mem q hx), hrest, hs'.left⟩
      exact ⟨by rw [hitems, Prod.ext hfirst hvalue], ht⟩

/-- Every input can be taken apart. The induction is on its length, of which an item takes some. -/
theorem Sequential.exists_split (h : Sequential decode) (n : ℕ) :
    ∀ s : List β, s.length ≤ n → ∃ items t, Splits decode s items t := by
  induction n with
  | zero =>
    intro s hn
    have hs : s = [] := List.length_eq_zero_iff.mp (by omega)
    subst hs
    exact ⟨[], [], by simp, rfl, h.unfinished_nil⟩
  | succ n ih =>
    intro s hn
    by_cases hu : Unfinished decode s
    · exact ⟨[], s, by simp, rfl, hu⟩
    · simp only [Unfinished, not_forall, not_not] at hu
      obtain ⟨item, rest, v, rfl, hv⟩ := hu
      have hpos := List.length_pos_iff.mpr (h.ne_nil hv)
      rw [List.length_append] at hn
      obtain ⟨items, t, hs⟩ := ih rest (by omega)
      refine ⟨(item, v) :: items, t, ?_, ?_, hs.left⟩
      · intro p hp
        rcases List.mem_cons.mp hp with rfl | hp
        · exact hv
        · exact hs.read p hp
      · rw [hs.eq, bytes_cons, List.append_assoc]

/-- More input is taken apart from where the first part left off. -/
theorem Splits.append (hs : Splits decode s items t) {t' : List β}
    (hmore : Splits decode (t ++ u) items' t') :
    Splits decode (s ++ u) (items ++ items') t' where
  read p hp := by
    rcases List.mem_append.mp hp with hp | hp
    · exact hs.read p hp
    · exact hmore.read p hp
  eq := by rw [hs.eq, List.append_assoc, hmore.eq, bytes_append, List.append_assoc]
  left := hmore.left

/-! ### What the items are made into -/

section Map

variable {γ : Type}

/-- The decoder with its items made into something else. -/
def mapped (f : α → γ) (decode : List β → List α × Bool) : List β → List γ × Bool :=
  fun s => ((decode s).1.map f, (decode s).2)

theorem accepts_mapped {f : α → γ} {item : List β} {v : γ} :
    Accepts (mapped f decode) item v ↔ ∃ w, Accepts decode item w ∧ f w = v := by
  unfold Accepts mapped
  rw [Prod.mk.injEq, List.map_eq_singleton_iff]
  constructor
  · rintro ⟨⟨w, hw, rfl⟩, hflag⟩
    exact ⟨w, Prod.ext hw hflag, rfl⟩
  · rintro ⟨w, hw, rfl⟩
    rw [hw]
    exact ⟨⟨w, rfl, rfl⟩, rfl⟩

theorem Sequential.mapped (h : Sequential decode) (f : α → γ) :
    Sequential (SequentialDecoding.mapped f decode) where
  nil := by
    unfold SequentialDecoding.mapped
    rw [h.nil]
    rfl
  next item rest v hv := by
    obtain ⟨w, hw, rfl⟩ := accepts_mapped.mp hv
    unfold SequentialDecoding.mapped
    rw [h.next item rest w hw]
    rfl
  stops t hne hu := by
    have hopen : Unfinished decode t := fun item rest w heq hw =>
      hu item rest (f w) heq (accepts_mapped.mpr ⟨w, hw, rfl⟩)
    unfold SequentialDecoding.mapped
    rw [h.stops t hne hopen]
    rfl

end Map

/-! ### Decodable inputs -/

theorem Splits.decodable (hs : Splits decode s items t) (ht : Beginning decode t) :
    Decodable decode s := ⟨items, t, hs.read, hs.eq, ht⟩

/-- An input is decodable if what is left of it can still become an item. -/
theorem Splits.decodable_iff (h : Sequential decode) (hs : Splits decode s items t) :
    Decodable decode s ↔ Beginning decode t := by
  constructor
  · rintro ⟨items', t', hitems, heq, ht⟩
    obtain ⟨-, rfl⟩ := h.split_unique hs ⟨hitems, heq, h.unfinished ht⟩
    exact ht
  · exact hs.decodable

theorem Decodable.initial (h : Decodable decode (s ++ u)) : Decodable decode s := by
  obtain ⟨items, t, hitems, heq, ht⟩ := h
  induction items generalizing s with
  | nil =>
    rw [bytes_nil, List.nil_append] at heq
    exact ⟨[], s, by simp, rfl, Beginning.initial (heq ▸ ht)⟩
  | cons p items ih =>
    rw [bytes_cons, List.append_assoc] at heq
    have hp := hitems p List.mem_cons_self
    rcases List.append_eq_append_iff.mp heq with ⟨r, hr, -⟩ | ⟨r, hr, hrest⟩
    · by_cases hnil : r = []
      · rw [hnil, List.append_nil] at hr
        refine ⟨[p], [], by simpa using hp, ?_, Or.inl rfl⟩
        simp [hr]
      · exact ⟨[], s, by simp, rfl, Or.inr ⟨r, p.2, hnil, hr ▸ hp⟩⟩
    · obtain ⟨items', t', hitems', heq', ht'⟩ :=
        ih (fun q hq => hitems q (List.mem_cons_of_mem p hq)) hrest.symm
      refine ⟨p :: items', t', ?_, ?_, ht'⟩
      · intro q hq
        rcases List.mem_cons.mp hq with rfl | hq
        · exact hp
        · exact hitems' q hq
      · rw [hr, heq', bytes_cons, List.append_assoc]

end SequentialDecoding
