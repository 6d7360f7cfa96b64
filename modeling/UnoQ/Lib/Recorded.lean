import Mathlib.Data.Nat.Notation

/-!
# Computations that record what they do

A computation that may fail, with the list of its acts up to its end. The rules say how a property
of all acts and one of the result pass through a sequence of computations, and how an act gets into
every computation that returns. Some acts are a failure: nothing comes after them, and the result is
their error.
-/

structure Recorded (α ε β : Type) where
  acts : List α
  result : Except ε β

namespace Recorded

variable {α ε β γ : Type}

def act (a : α) : Recorded α ε Unit := ⟨[a], .ok ()⟩

def fail (e : ε) : Recorded α ε β := ⟨[], .error e⟩

def andThen (x : Recorded α ε β) (f : β → Recorded α ε γ) : Recorded α ε γ :=
  match x.result with
  | .ok b => ⟨x.acts ++ (f b).acts, (f b).result⟩
  | .error e => ⟨x.acts, .error e⟩

instance : Monad (Recorded α ε) where
  pure b := ⟨[], .ok b⟩
  bind := andThen

/-! ### The result alone -/

@[simp] theorem result_pure (b : β) : (pure b : Recorded α ε β).result = .ok b := rfl

@[simp] theorem result_fail (e : ε) : (fail e : Recorded α ε β).result = .error e := rfl

@[simp] theorem result_bind (x : Recorded α ε β) (f : β → Recorded α ε γ) :
    (x >>= f).result = x.result >>= fun b => (f b).result := by
  show (andThen x f).result = _
  unfold andThen
  cases x.result <;> rfl

@[simp] theorem result_act_bind (a : α) (f : Unit → Recorded α ε γ) :
    (act a >>= f).result = (f ()).result := rfl

@[simp] theorem result_ite (c : Prop) [Decidable c] (x y : Recorded α ε β) :
    (if c then x else y).result = if c then x.result else y.result := by
  split <;> rfl

/-! ### Properties of the acts -/

/-- Every act is allowed, an act that is a failure has its error for the result, and what is returned
is as wanted. -/
structure Keeps (allowed : α → Prop) (failure : α → Option ε) (x : Recorded α ε β) (wanted : β → Prop) :
    Prop where
  allowed : ∀ a ∈ x.acts, allowed a
  ends : ∀ a ∈ x.acts, ∀ e, failure a = some e → x.result = .error e
  returns : ∀ b, x.result = .ok b → wanted b

namespace Keeps

variable {allowed : α → Prop} {failure : α → Option ε} {wanted wanted' : β → Prop}

theorem pure {b : β} (h : wanted b) : Keeps allowed failure (pure b : Recorded α ε β) wanted where
  allowed a ha := absurd ha List.not_mem_nil
  ends a ha := absurd ha List.not_mem_nil
  returns b' hb := by
    cases hb
    exact h

theorem fail (e : ε) : Keeps allowed failure (fail e : Recorded α ε β) wanted where
  allowed a ha := absurd ha List.not_mem_nil
  ends a ha := absurd ha List.not_mem_nil
  returns b hb := by contradiction

theorem act {a : α} (h : allowed a) (hnone : failure a = none) :
    Keeps allowed failure (act a : Recorded α ε Unit) fun _ => True where
  allowed a' ha := by
    rw [List.mem_singleton.mp ha]
    exact h
  ends a' ha e he := by
    rw [List.mem_singleton.mp ha, hnone] at he
    contradiction
  returns _ _ := trivial

theorem failed {a : α} {e : ε} (h : allowed a) (he : failure a = some e) :
    Keeps allowed failure ((Recorded.act a >>= fun _ => Recorded.fail e) : Recorded α ε β) wanted where
  allowed a' ha := by
    rw [List.mem_singleton.mp ha]
    exact h
  ends a' ha e' he' := by
    rw [List.mem_singleton.mp ha, he] at he'
    rw [← Option.some.inj he']
    rfl
  returns b hb := by contradiction

theorem mono {x : Recorded α ε β} (h : Keeps allowed failure x wanted) (hw : ∀ b, wanted b → wanted' b) :
    Keeps allowed failure x wanted' where
  allowed := h.allowed
  ends := h.ends
  returns b hb := hw b (h.returns b hb)

/-- The rule of sequence: the second computation starts from what the first one returns. -/
theorem bind {x : Recorded α ε β} {f : β → Recorded α ε γ} {final : γ → Prop}
    (hx : Keeps allowed failure x wanted) (hf : ∀ b, wanted b → Keeps allowed failure (f b) final) :
    Keeps allowed failure (x >>= f) final := by
  obtain ⟨acts, result⟩ := x
  cases result with
  | error e =>
    refine ⟨hx.allowed, fun a ha e' he' => ?_, fun c hc => by contradiction⟩
    rw [← Except.error.inj (hx.ends a ha e' he')]
    rfl
  | ok b =>
    have hnext := hf b (hx.returns b rfl)
    constructor
    · intro a ha
      rcases List.mem_append.mp ha with ha | ha
      · exact hx.allowed a ha
      · exact hnext.allowed a ha
    · intro a ha e he
      rcases List.mem_append.mp ha with ha | ha
      · exact absurd (hx.ends a ha e he) (by simp)
      · exact hnext.ends a ha e he
    · exact hnext.returns

theorem ite {c : Prop} [Decidable c] {x y : Recorded α ε β} (hx : c → Keeps allowed failure x wanted)
    (hy : ¬ c → Keeps allowed failure y wanted) : Keeps allowed failure (if c then x else y) wanted := by
  split
  next h => exact hx h
  next h => exact hy h

end Keeps

/-! ### An act on the way to a return -/

/-- The computation does not return without having done this. -/
def Did (a : α) (x : Recorded α ε β) : Prop := ∀ b, x.result = .ok b → a ∈ x.acts

namespace Did

variable {a : α}

theorem act (f : Unit → Recorded α ε γ) : Did a (Recorded.act a >>= f) := by
  intro c _
  exact List.mem_cons_self

theorem before {x : Recorded α ε β} {f : β → Recorded α ε γ} (h : Did a x) : Did a (x >>= f) := by
  obtain ⟨acts, result⟩ := x
  intro c hc
  cases result with
  | error e => contradiction
  | ok b => exact List.mem_append_left _ (h b rfl)

theorem after {x : Recorded α ε β} {f : β → Recorded α ε γ}
    (h : ∀ b, x.result = .ok b → Did a (f b)) : Did a (x >>= f) := by
  obtain ⟨acts, result⟩ := x
  intro c hc
  cases result with
  | error e => contradiction
  | ok b => exact List.mem_append_right _ (h b rfl c hc)

theorem ite {c : Prop} [Decidable c] {x y : Recorded α ε β} (hx : c → Did a x) (hy : ¬ c → Did a y) :
    Did a (if c then x else y) := by
  split
  next h => exact hx h
  next h => exact hy h

end Did

end Recorded
