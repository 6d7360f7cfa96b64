import UnoQ.Nodes.RetryHint
import UnoQ.Nodes.SlidingCap

/-!
# What a guard is told

Between the check of the rate limit and the guard only the clock moves. So the budget that a guard gets
is that of all the calls ever made, with room for at least the one that it is asked about, and the time
that it is given is the one at which the room next grows. The clock is read for each part of it, and
what was counted first can have left the window when the next part is made.
-/

namespace UnoQ.Nodes
open Transition Windows RateLimitWindow RateLimiter

namespace Gates

variable {Params : Type} {node : Node Params} {s t : Gates Params}

/-- The calls of the key in the window that ends at the time. -/
def passesIn (s : Gates Params) (key : String) (window : RateLimitWindow) (time : ℤ) : ℕ :=
  (after (time - window.WINDOW_MS) (s.passes key)).length

/-- The reset is that of the window which ends at the time. -/
def ResetsIn (s : Gates Params) (key : String) (window : RateLimitWindow) (now ms : ℤ) : Prop :=
  0 < ms ∧
    (∀ time, now ≤ time → time < now + ms → s.passesIn key window time = s.passesIn key window now) ∧
    s.passesIn key window (now + ms) < s.passesIn key window now

/-- The budget of a guard that has its `remaining` from `counted` and its `resetsInMs` from `s.now`. -/
structure BudgetExact (s : Gates Params) (key : String) (rateLimit : RateLimit) (counted : ℤ)
    (budget : GuardBudget) : Prop where
  used : ∀ window time, s.now ≤ time → budget.used window time = s.passesIn key window time
  uncapped : rateLimit.rateLimitCap = none → budget.remaining = none ∧ budget.resetsInMs = none
  remaining : ∀ cap, rateLimit.rateLimitCap = some cap → ∃ n : ℕ, 0 < n ∧
    budget.remaining = some (n : ℤ) ∧ (n : ℤ) + s.passesIn key rateLimit.rateLimitWindow counted = cap
  fits : ∀ cap n time, rateLimit.rateLimitCap = some cap → budget.remaining = some n → s.now ≤ time →
    n + budget.used rateLimit.rateLimitWindow time ≤ cap
  unused : ∀ cap, rateLimit.rateLimitCap = some cap →
    (budget.resetsInMs = none ↔ s.passesIn key rateLimit.rateLimitWindow s.now = 0)
  resets : ∀ ms, budget.resetsInMs = some ms → s.ResetsIn key rateLimit.rateLimitWindow s.now ms

/-! ### The history -/

/-- The limiter has been told of the calls that have passed, when they did. -/
structure Told (s : Gates Params) : Prop where
  limiter : s.limiter = recorded s.passed
  ordered : (s.passed.map Prod.snd).Pairwise (· ≤ ·)
  past : ∀ p ∈ s.passed, p.2 ≤ s.now

theorem told_elapse (h : s.Told) (ms : ℕ) : (s.elapse ms).Told where
  limiter := h.limiter
  ordered := h.ordered
  past p hp := by
    have hle := h.past p hp
    change p.2 ≤ s.now + (ms : ℕ)
    omega

theorem told_step (h : s.Told) {e : Event Params} (hs : (machine node).step s e = some t) : t.Told := by
  rcases step_cases hs with ⟨ms, -, rfl⟩ | ⟨nodeId, continueOnFail, items, -, rfl⟩ |
    ⟨x, item, -, -, rfl⟩ | ⟨x, r, turn, ms, rfl, -⟩
  · exact told_elapse h ms
  · exact ⟨h.limiter, h.ordered, h.past⟩
  · refine ⟨?_, ?_, ?_⟩
    · change s.limiter.recordCall _ s.now = recorded (s.passed ++ [_])
      rw [recorded_snoc, h.limiter]
    · change ((s.passed ++ [(_, s.now)]).map Prod.snd).Pairwise (· ≤ ·)
      rw [List.map_append, List.pairwise_append]
      refine ⟨h.ordered, List.pairwise_singleton _ _, ?_⟩
      intro a ha b hb
      obtain ⟨p, hp, rfl⟩ := List.mem_map.mp ha
      rw [List.mem_singleton.mp hb]
      exact h.past p hp
    · intro p hp
      rcases List.mem_append.mp hp with hold | hnew
      · exact h.past p hold
      · rw [List.mem_singleton.mp hnew]
        exact le_refl s.now
  · have hlater := told_elapse h ms
    exact ⟨hlater.limiter, hlater.ordered, hlater.past⟩

theorem told_reach {ok : Guard (Gates Params) (Event Params)} (h : (machine node).Reach ok s) :
    s.Told := by
  refine h.invariant (P := Told) ?_ ?_
  · rintro s ⟨now, rfl⟩
    exact ⟨rfl, List.Pairwise.nil, by simp [initial]⟩
  · intro s e t _ hs hstep _
    exact told_step hs hstep

/-! ### The room -/

/-- The item at the guard or at the record has its own cap to go by, whatever others have. -/
def Roomy (node : Node Params) (s : Gates Params) : Prop :=
  ∀ x, (s.executions x).pc = .guarding ∨ (s.executions x).pc = .recording → HasRoom node s x

/-- Calls leave a window as time goes on. -/
theorem hasRoom_elapse {x : ℕ} (h : HasRoom node s x) (ms : ℕ) : HasRoom node (s.elapse ms) x := by
  intro item hitem cap hcap
  have hallowed := h item hitem cap hcap
  rw [checkRateLimit_allowed] at hallowed ⊢
  refine lt_of_le_of_lt ?_ hallowed
  unfold countInWindow activeTimestamps
  refine Int.ofNat_le.mpr (length_after_le ?_ _)
  change s.now - _ ≤ s.now + (ms : ℕ) - _
  omega

theorem roomy_elapse (h : s.Roomy node) (ms : ℕ) : (s.elapse ms).Roomy node :=
  fun x hx => hasRoom_elapse (h x hx) ms

theorem roomy_step (hr : s.Sound) (h : s.Roomy node) {e : Event Params}
    (hs : (machine node).step s e = some t) : t.Roomy node := by
  intro x hx
  rcases step_cases hs with ⟨ms, -, rfl⟩ | ⟨nodeId, continueOnFail, items, -, rfl⟩ |
    ⟨y, item, -, hitem, rfl⟩ | ⟨y, r, turn, ms, rfl, hm⟩
  · exact roomy_elapse h ms x hx
  · rcases executions_execute s nodeId continueOnFail items x with he | ⟨hg, -⟩
    · have hold := h x (he ▸ hx)
      unfold HasRoom at hold ⊢
      rw [he]
      exact hold
    · rw [gated_of_room hx] at hg
      contradiction
  · have hgated : ((s.record node y item).executions x).pc.gated = false := gated_record hr hitem x
    rw [gated_of_room hx] at hgated
    contradiction
  · have hlater := roomy_elapse h ms
    by_cases hxy : x = y
    · subst hxy
      rw [setExecution_self] at hx
      have hold : HasRoom node (s.elapse ms) x := by
        rcases hm.room hx with hroom | hguarding
        · exact hroom
        · exact hlater x (.inl hguarding)
      unfold HasRoom at hold ⊢
      rw [setExecution_self, (hm.gated (gated_of_room hx)).2, hm.nodeId]
      exact hold
    · rw [setExecution_other hxy] at hx
      have hold := hlater x hx
      unfold HasRoom at hold ⊢
      rw [setExecution_other hxy]
      exact hold

theorem roomy_reach {ok : Guard (Gates Params) (Event Params)} (h : (machine node).Reach ok s) :
    s.Roomy node := by
  refine h.invariant (P := Roomy node) ?_ ?_
  · rintro s ⟨now, rfl⟩ x hx
    rcases hx with hx | hx <;> contradiction
  · intro s e t hr hs hstep _
    exact roomy_step (sound_reach hr) hs hstep

/-! ### The budget -/

/-- From now on the limiter counts what has passed. -/
theorem Sound.counts (h : s.Sound) (key : String) (window : RateLimitWindow) {time : ℤ}
    (htime : s.now ≤ time) : s.limiter.countInWindow key window time = s.passesIn key window time := by
  unfold RateLimiter.countInWindow activeTimestamps passesIn
  have hle := window.ms_le_day
  rw [h.agree key _ (by omega)]

/-- A reset is the moment at which the oldest call in the window leaves it. -/
theorem Sound.resets (h : s.Sound) (htold : s.Told) {key : String} {window : RateLimitWindow} {ms : ℤ}
    (hms : s.limiter.resetsInMs key window s.now = some ms) : s.ResetsIn key window s.now ms := by
  have hsorted : (s.limiter.timestamps key).Pairwise (· ≤ ·) := by
    rw [htold.limiter]
    exact timestamps_ordered htold.ordered key
  unfold RateLimiter.resetsInMs at hms
  cases hactive : s.limiter.activeTimestamps key window.WINDOW_MS s.now with
  | nil =>
    rw [hactive] at hms
    contradiction
  | cons oldest rest =>
    rw [hactive, List.head?_cons, Option.map_some, Option.some.injEq] at hms
    have hin : s.now - window.WINDOW_MS < oldest := by
      have hmem : oldest ∈ s.limiter.activeTimestamps key window.WINDOW_MS s.now := by
        rw [hactive]
        exact List.mem_cons_self
      simpa using List.of_mem_filter hmem
    have hend : s.now + ms = oldest + window.WINDOW_MS := by omega
    have hcount : s.passesIn key window s.now = rest.length + 1 := by
      rw [← h.counts key window (le_refl s.now)]
      unfold RateLimiter.countInWindow
      rw [hactive, List.length_cons]
    refine ⟨by omega, ?_, ?_⟩
    · intro time hnow htime
      have hsame := active_until hsorted hactive hnow (by omega)
      rw [hcount, ← h.counts key window hnow]
      unfold RateLimiter.countInWindow
      rw [hsame, List.length_cons]
    · rw [hcount, ← h.counts key window (by omega), hend, countInWindow_expiry hactive]
      unfold laterThanOldest
      rw [hactive]
      exact Nat.lt_succ_of_le (List.length_filter_le _ _)

/-- Calls leave a window as time goes on. -/
theorem passesIn_le (s : Gates Params) (key : String) (window : RateLimitWindow) {early late : ℤ}
    (h : early ≤ late) : s.passesIn key window late ≤ s.passesIn key window early := by
  unfold passesIn
  exact length_after_le (by omega) _

theorem Sound.budgetExact (hs : s.Sound) (htold : s.Told) (key : String) (rateLimit : RateLimit)
    (hroom : ∀ cap, rateLimit.rateLimitCap = some cap →
      (s.passesIn key rateLimit.rateLimitWindow s.now : ℤ) < cap) (ms : ℕ) :
    (s.elapse ms).BudgetExact key rateLimit s.now (buildBudget s.limiter key rateLimit.rateLimitCap
      rateLimit.rateLimitWindow s.now (s.elapse ms).now) := by
  have hlater := sound_tick hs ms
  have hnow : s.now ≤ (s.elapse ms).now := by simp [elapse]
  have hremaining : ∀ cap, rateLimit.rateLimitCap = some cap → max 0 (cap - s.limiter.countInWindow key
      rateLimit.rateLimitWindow s.now) = cap - s.passesIn key rateLimit.rateLimitWindow s.now := by
    intro cap hcap
    have hlt := hroom cap hcap
    rw [hs.counts key _ (le_refl s.now)]
    omega
  constructor
  case used =>
    intro window time htime
    exact hlater.counts _ window htime
  case uncapped =>
    intro hcap
    simp [buildBudget, hcap]
  case remaining =>
    intro cap hcap
    have hlt := hroom cap hcap
    refine ⟨(cap - s.passesIn key rateLimit.rateLimitWindow s.now).toNat, by omega, ?_, ?_⟩
    · simp only [buildBudget, hcap, Option.map_some, hremaining cap hcap, Option.some.injEq]
      omega
    · change _ + ((s.passesIn key rateLimit.rateLimitWindow s.now : ℕ) : ℤ) = cap
      omega
  case fits =>
    intro cap n time hcap hn htime
    simp only [buildBudget, hcap, Option.map_some, hremaining cap hcap, Option.some.injEq] at hn
    have hle := s.passesIn_le key rateLimit.rateLimitWindow (hnow.trans htime)
    have hused := hs.counts key rateLimit.rateLimitWindow (hnow.trans htime)
    change n + ((s.limiter.countInWindow key rateLimit.rateLimitWindow time : ℕ) : ℤ) ≤ cap
    omega
  case unused =>
    intro cap hcap
    rw [← hlater.counts key _ (le_refl _)]
    simp [buildBudget, hcap, resetsInMs, RateLimiter.countInWindow, elapse]
  case resets =>
    intro reset hreset
    cases hcap : rateLimit.rateLimitCap with
    | none => simp [buildBudget, hcap] at hreset
    | some cap =>
      simp only [buildBudget, hcap, Option.bind_some] at hreset
      exact hlater.resets (told_elapse htold ms) hreset

/-- In every run, the budget that a guard is called with is exact, however the clock goes on between the
readings. -/
theorem budgetExact_reach (h : (machine node).Reach always s) {x : ℕ} {item : GatedItem Params}
    (hitem : s.itemAt x .guarding = some item) (ms : ℕ) :
    (s.elapse ms).BudgetExact (node.counterKey (s.executions x).nodeId item.params) item.rateLimit s.now
      ((s.elapse ms).budget node x item s.now) := by
  have hsound := sound_reach h
  obtain ⟨hpc, -, hhead⟩ := itemAt_some hitem
  refine hsound.budgetExact (told_reach h) _ item.rateLimit (fun cap hcap => ?_) ms
  have hroom := roomy_reach h x (.inl hpc) item hhead cap hcap
  rw [checkRateLimit_allowed, hsound.counts _ _ (le_refl s.now)] at hroom
  exact hroom

/-- The third of three calls with caps of their own is at its guard. -/
def thirdGuarded : List (Event ToolParams) :=
  .execute "node" true [setLed, setLed, ⟨⟨"set_led", none⟩, ⟨some 5, some .hour⟩, true⟩] ::
    (passing ++ passing ++ [.prepared 0, .check 0, .tick 100])

def atThirdGuard : Gates ToolParams := (machine unoQTool).after always (initial 0) thirdGuarded

def thirdBudget : GuardBudget :=
  (atThirdGuard.elapse 2).budget unoQTool 0 ⟨⟨"set_led", none⟩, ⟨some 5, some .hour⟩, true⟩
    atThirdGuard.now

theorem atThirdGuard_exact : (atThirdGuard.itemAt 0 .guarding).isSome = true ∧
    thirdBudget.remaining = some 3 ∧ thirdBudget.resetsInMs = some 3599893 ∧
    (atThirdGuard.elapse 2).BudgetExact "node:set_led" ⟨some 5, some .hour⟩ atThirdGuard.now
      thirdBudget := by
  have hinit : (machine unoQTool).Reach always (initial 0) := .init ⟨0, rfl⟩
  refine ⟨by decide +kernel, by decide +kernel, by decide +kernel, ?_⟩
  exact budgetExact_reach (hinit.after thirdGuarded) (x := 0) rfl 2

end Gates

end UnoQ.Nodes
