import Mathlib.Logic.Basic

/-!
# Deterministic machines and their guarded runs

A machine is a set of initial states with a partial step function. A run may be
restricted by a guard on its steps, which is how a theorem says "in every run
whose steps all meet this condition". Invariants are proved once per step and
lifted to runs here; a refinement is a view of one machine's states whose every
step is answered by steps of another machine.
-/

namespace Transition

/-- The result `step s e` is `none` when the event `e` is not enabled in `s`. -/
structure Machine (S E : Type) where
  init : S → Prop
  step : S → E → Option S

/-- A condition on a step: the state before, the event, the state after. -/
abbrev Guard (S E : Type) := S → E → S → Prop

variable {S E T F : Type}

def always : Guard S E := fun _ _ _ => True

instance (s : S) (e : E) (t : S) : Decidable (always s e t) := isTrue trivial

def Guard.and (ok ok' : Guard S E) : Guard S E := fun s e t => ok s e t ∧ ok' s e t

instance (ok ok' : Guard S E) (s : S) (e : E) (t : S) [Decidable (ok s e t)] [Decidable (ok' s e t)] :
    Decidable (ok.and ok' s e t) := inferInstanceAs (Decidable (_ ∧ _))

/-- The states a run reaches when each of its steps meets the guard. -/
inductive Machine.Reach (M : Machine S E) (ok : Guard S E) : S → Prop
  | init {s : S} : M.init s → M.Reach ok s
  | step {s : S} {e : E} {t : S} : M.Reach ok s → M.step s e = some t → ok s e t → M.Reach ok t

namespace Machine.Reach

variable {M : Machine S E} {N : Machine T F} {ok ok' : Guard S E} {okN : Guard T F}

/-- The run rule: what holds initially and is kept by every guarded step holds of every reached
state. The step case may use that its source state was itself reached. -/
theorem invariant {P : S → Prop} (base : ∀ s, M.init s → P s)
    (keep : ∀ s e t, M.Reach ok s → P s → M.step s e = some t → ok s e t → P t)
    {s : S} (h : M.Reach ok s) : P s := by
  induction h with
  | init hi => exact base _ hi
  | step hr hs hg ih => exact keep _ _ _ hr ih hs hg

theorem mono (weaker : ∀ s e t, M.Reach ok s → ok s e t → ok' s e t) {s : S} (h : M.Reach ok s) :
    M.Reach ok' s := by
  induction h with
  | init hi => exact .init hi
  | step hr hs hg ih => exact .step ih hs (weaker _ _ _ hr hg)

theorem left {s : S} (h : M.Reach (ok.and ok') s) : M.Reach ok s := h.mono fun _ _ _ _ hg => hg.1

theorem right {s : S} (h : M.Reach (ok.and ok') s) : M.Reach ok' s := h.mono fun _ _ _ _ hg => hg.2

/-- A run keeps to the guard, or comes to what a step against the guard leads to, if that is never made
good again. -/
theorem guarded_or {B : S → Prop}
    (spoil : ∀ s e t, M.Reach always s → M.step s e = some t → B s ∨ ¬ ok s e t → B t)
    {s : S} (h : M.Reach always s) : M.Reach ok s ∨ B s := by
  refine h.invariant (P := fun s => M.Reach ok s ∨ B s) ?_ ?_
  · exact fun s hi => .inl (.init hi)
  · intro s e t hr hkept hs _
    by_cases hg : ok s e t
    · rcases hkept with hok | hB
      · exact .inl (hok.step hs hg)
      · exact .inr (spoil s e t hr hs (.inl hB))
    · exact .inr (spoil s e t hr hs (.inr hg))

/-- The refinement rule: a view that starts right and answers every guarded step by some steps of
`N` carries runs of `M` to runs of `N`. -/
theorem simulation (view : S → T) (base : ∀ s, M.init s → N.init (view s))
    (answer : ∀ s e t, M.Reach ok s → N.Reach okN (view s) → M.step s e = some t → ok s e t →
      N.Reach okN (view t)) {s : S} (h : M.Reach ok s) : N.Reach okN (view s) := by
  induction h with
  | init hi => exact .init (base _ hi)
  | step hr hs hg ih => exact answer _ _ _ hr ih hs hg

/-- A machine that carries another one along runs it. -/
theorem carried {L : Machine T E} (view : S → T) (base : ∀ s, M.init s → L.init (view s))
    (taken : ∀ s e t, M.step s e = some t → L.step (view s) e = some (view t)) {s : S}
    (h : M.Reach ok s) : L.Reach always (view s) :=
  h.simulation view base fun _ _ _ _ hr hs _ => hr.step (taken _ _ _ hs) trivial

end Machine.Reach

/-- The machine with runs that go on from a given state. -/
def Machine.startingAt (M : Machine S E) (s : S) : Machine S E := { M with init := (· = s) }

theorem Machine.Reach.append {M : Machine S E} {ok : Guard S E} {s t : S} (hs : M.Reach ok s)
    (ht : (M.startingAt s).Reach ok t) : M.Reach ok t := by
  induction ht with
  | init hi => exact hi ▸ hs
  | step _ hstep hg ih => exact ih.step hstep hg

/-- The machine whose events are total functions, taken when enabled. -/
def Machine.ofEnabled (init : S → Prop) (enabled : S → E → Prop) [∀ s e, Decidable (enabled s e)]
    (apply : S → E → S) : Machine S E where
  init := init
  step s e := if enabled s e then some (apply s e) else none

theorem Machine.ofEnabled_step {init : S → Prop} {enabled : S → E → Prop}
    [∀ s e, Decidable (enabled s e)] {apply : S → E → S} {s t : S} {e : E} :
    (Machine.ofEnabled init enabled apply).step s e = some t ↔ enabled s e ∧ apply s e = t := by
  simp only [Machine.ofEnabled]
  split
  next h => simp [h]
  next h => simp [h]

theorem Machine.ofEnabled_map {init : S → Prop} {enabled : S → E → Prop}
    [∀ s e, Decidable (enabled s e)] {apply : S → E → S} {watched : S → T} {s : S} {t : T} {e : E} :
    ((Machine.ofEnabled init enabled apply).step s e).map watched = some t ↔
      enabled s e ∧ watched (apply s e) = t := by
  simp only [Machine.ofEnabled]
  split
  next h => simp [h]
  next h => simp [h]

theorem Machine.Reach.take {init : S → Prop} {enabled : S → E → Prop}
    [∀ s e, Decidable (enabled s e)] {apply : S → E → S} {ok : Guard S E} {s : S}
    (hs : (Machine.ofEnabled init enabled apply).Reach ok s) (e : E) (he : enabled s e)
    (hok : ok s e (apply s e)) : (Machine.ofEnabled init enabled apply).Reach ok (apply s e) :=
  hs.step (Machine.ofEnabled_step.mpr ⟨he, rfl⟩) hok

/-- Executes a list of events, stopping at the first one that is not enabled or breaks the guard. -/
def Machine.checked (M : Machine S E) (ok : Guard S E) [∀ s e t, Decidable (ok s e t)] :
    S → List E → Option S
  | s, [] => some s
  | s, e :: es =>
    match M.step s e with
    | none => none
    | some t => if ok s e t then M.checked ok t es else none

theorem Machine.Reach.checked {M : Machine S E} {ok : Guard S E} [∀ s e t, Decidable (ok s e t)]
    (es : List E) : ∀ {s t : S}, M.Reach ok s → M.checked ok s es = some t → M.Reach ok t := by
  induction es with
  | nil =>
    intro s t hs ht
    cases ht
    exact hs
  | cons e es ih =>
    intro s t hs ht
    simp only [Machine.checked] at ht
    cases he : M.step s e with
    | none => simp [he] at ht
    | some u =>
      simp only [he] at ht
      split at ht
      next hok => exact ih (hs.step he hok) ht
      next => contradiction

/-- Where a list of events leads; an event that is not enabled or breaks the guard voids it. -/
def Machine.after (M : Machine S E) (ok : Guard S E) [∀ s e t, Decidable (ok s e t)] (s : S)
    (es : List E) : S := (M.checked ok s es).getD s

theorem Machine.Reach.after {M : Machine S E} {ok : Guard S E} [∀ s e t, Decidable (ok s e t)]
    {s : S} (hs : M.Reach ok s) (es : List E) : M.Reach ok (M.after ok s es) := by
  unfold Machine.after
  cases h : M.checked ok s es with
  | none => exact hs
  | some t => exact Machine.Reach.checked es hs h

theorem Machine.checked_mono {M : Machine S E} {ok ok' : Guard S E} [∀ s e t, Decidable (ok s e t)]
    [∀ s e t, Decidable (ok' s e t)] (h : ∀ s e t, ok s e t → ok' s e t) (es : List E) :
    ∀ {s t : S}, M.checked ok s es = some t → M.checked ok' s es = some t := by
  induction es with
  | nil => exact fun ht => ht
  | cons e es ih =>
    intro s t ht
    simp only [Machine.checked] at ht ⊢
    cases he : M.step s e with
    | none => simp [he] at ht
    | some u =>
      simp only [he] at ht ⊢
      split at ht
      next hok =>
        rw [if_pos (h s e u hok)]
        exact ih ht
      next => contradiction

/-- A run that keeps to the stronger guard is the same run under the weaker one. -/
theorem Machine.after_mono {M : Machine S E} {ok ok' : Guard S E} [∀ s e t, Decidable (ok s e t)]
    [∀ s e t, Decidable (ok' s e t)] (h : ∀ s e t, ok s e t → ok' s e t) {s : S} {es : List E}
    (hes : (M.checked ok s es).isSome = true) : M.after ok' s es = M.after ok s es := by
  obtain ⟨t, ht⟩ := Option.isSome_iff_exists.mp hes
  unfold Machine.after
  rw [ht, Machine.checked_mono h es ht]

theorem Machine.checked_startingAt (M : Machine S E) (ok : Guard S E) [∀ s e t, Decidable (ok s e t)]
    (s : S) (es : List E) : ∀ u : S, (M.startingAt s).checked ok u es = M.checked ok u es := by
  induction es with
  | nil => exact fun _ => rfl
  | cons e es ih =>
    intro u
    simp only [Machine.checked, ih]
    rfl

theorem Machine.Reach.since (M : Machine S E) (ok : Guard S E) [∀ s e t, Decidable (ok s e t)]
    (s : S) (es : List E) : (M.startingAt s).Reach ok (M.after ok s es) := by
  have hstart : (M.startingAt s).Reach ok s := .init rfl
  have hafter := hstart.after es
  unfold Machine.after at hafter ⊢
  rw [Machine.checked_startingAt] at hafter
  exact hafter

end Transition
