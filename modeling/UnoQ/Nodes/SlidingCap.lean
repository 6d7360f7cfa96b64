import UnoQ.Nodes.Gates

/-!
# The rate limit over every window

Whatever the interleaving of the runs of a node, the calls of a counter key that pass both gates
are at most as many as its cap in every window, and an item that is refused leaves the history as
it found it on reaching the gates. A run that is at its gates holds the turn, so the room that the
check found is still there when the call is recorded: only the clock has moved. The history that
is kept for a day agrees with all calls ever passed in every window that is looked at.
-/

namespace UnoQ.Nodes
open Transition Windows RateLimitWindow

namespace Gates

variable {Params : Type} {node : Node Params}

/-- The times at which calls of a key have passed both gates. -/
def passes (s : Gates Params) (key : String) : List ℤ :=
  (s.passed.filter fun p => decide (p.1 = key)).map Prod.snd

/-- In this step an item of run `x` is refused. -/
def Refuses (s t : Gates Params) (x : ℕ) : Prop :=
  ∃ message, (t.executions x).returnData = (s.executions x).returnData ++ [.refused message]

/-- All items with the key have the same cap and window. -/
def Sharing (node : Node Params) (key : String) (cap : ℕ) (window : RateLimitWindow) :
    Guard (Gates Params) (Event Params) := fun _ e _ =>
  match e with
  | .execute nodeId _ items => ∀ item ∈ items, node.counterKey nodeId item.params = key →
    item.rateLimit.maxCalls = some (cap : ℤ) ∧ item.rateLimit.rateLimitWindow = window
  | _ => True

/-! ### What a step does -/

theorem itemAt_some {s : Gates Params} {x : ℕ} {pc : GatePc} {item : GatedItem Params}
    (h : s.itemAt x pc = some item) :
    (s.executions x).pc = pc ∧ s.mayRun x ∧ (s.executions x).items.head? = some item := by
  unfold itemAt at h
  split at h
  next hc => exact ⟨hc.1, hc.2, h⟩
  next => contradiction

/-- The check of an item finds room, if it has a cap. -/
def HasRoom (node : Node Params) (s : Gates Params) (x : ℕ) : Prop :=
  ∀ item ∈ (s.executions x).items.head?, ∀ cap ∈ item.rateLimit.rateLimitCap,
    s.limiter.checkRateLimit (node.counterKey (s.executions x).nodeId item.params) cap
      item.rateLimit.rateLimitWindow s.now = .allowed

/-- Run `x` goes on to `r`, and then the turn is as given. -/
structure Moves (node : Node Params) (s : Gates Params) (x : ℕ) (r : Execution Params)
    (turn : Option ℕ) : Prop where
  mayRun : s.mayRun x
  released : turn = none ∨ turn = some x
  nodeId : r.nodeId = (s.executions x).nodeId
  items : ∀ item ∈ r.items, item ∈ (s.executions x).items
  gated : r.pc.gated = true → turn = some x ∧ r.items = (s.executions x).items
  found : r.pc.gated = true →
    r.found = s.limiter ∨ ((s.executions x).pc.gated = true ∧ r.found = (s.executions x).found)
  room : r.pc = .guarding ∨ r.pc = .recording →
    HasRoom node s x ∨ (s.executions x).pc = .guarding
  refused : ∀ message, r.returnData = (s.executions x).returnData ++ [.refused message] →
    (s.executions x).pc.gated = true

theorem moves_next {s : Gates Params} {x : ℕ} (output : Output) (hrun : s.mayRun x)
    (hout : ∀ message, output = .refused message → (s.executions x).pc.gated = true) :
    ∃ r turn, s.next node x output = s.setExecution x r turn ∧ Moves node s x r turn := by
  refine ⟨_, _, rfl, ?_⟩
  have hpc : ∀ b : Bool, (if b = true then GatePc.ended else .preparing).gated = false := by
    intro b
    cases b <;> rfl
  have hne : ∀ b : Bool, (if b = true then GatePc.ended else .preparing) ≠ .guarding ∧
      (if b = true then GatePc.ended else .preparing) ≠ .recording := by
    intro b
    cases b <;> exact ⟨nofun, nofun⟩
  constructor
  case mayRun => exact hrun
  case released =>
    split
    · exact .inl rfl
    · exact .inr rfl
  case nodeId => rfl
  case items => exact fun item hitem => List.mem_of_mem_tail hitem
  case gated =>
    intro h
    rw [hpc] at h
    contradiction
  case found =>
    intro h
    rw [hpc] at h
    contradiction
  case room =>
    intro h
    rcases h with h | h
    · exact absurd h (hne _).1
    · exact absurd h (hne _).2
  case refused =>
    intro message h
    have hlast := List.append_cancel_left h
    injection hlast with hlast
    exact hout message hlast

theorem moves_fail {s : Gates Params} {x : ℕ} (message : String) (hrun : s.mayRun x) :
    ∃ r turn, s.fail node x message = s.setExecution x r turn ∧ Moves node s x r turn := by
  unfold fail
  by_cases hc : (s.executions x).continueOnFail = true
  · rw [if_pos hc]
    exact moves_next (.error message) hrun nofun
  · rw [if_neg hc]
    refine ⟨_, _, rfl, ?_⟩
    constructor
    case mayRun => exact hrun
    case released => exact .inl rfl
    case nodeId => rfl
    case items => exact fun item hitem => hitem
    case gated => exact nofun
    case found => exact nofun
    case room => exact nofun
    case refused =>
      intro message h
      have hlen := congrArg List.length h
      rw [List.length_append] at hlen
      simp at hlen

/-- A run goes from one gate to the next. -/
theorem moves_goTo {s : Gates Params} {x : ℕ} {pc : GatePc} (hrun : s.mayRun x)
    (hgated : (s.executions x).pc.gated = true)
    (hroom : HasRoom node s x ∨ (s.executions x).pc = .guarding) :
    ∃ r turn, s.goTo x pc = s.setExecution x r turn ∧ Moves node s x r turn := by
  refine ⟨_, _, rfl, ?_⟩
  constructor
  case mayRun => exact hrun
  case released => exact .inr rfl
  case nodeId => rfl
  case items => exact fun item hitem => hitem
  case gated => exact fun _ => ⟨rfl, rfl⟩
  case found => exact fun _ => .inr ⟨hgated, rfl⟩
  case room => exact fun _ => hroom
  case refused => exact fun _ _ => hgated

theorem moves_prepared {s : Gates Params} {x : ℕ} (hrun : s.mayRun x) :
    ∃ r turn, s.prepared x = s.setExecution x r turn ∧ Moves node s x r turn := by
  refine ⟨_, _, rfl, ?_⟩
  constructor
  case mayRun => exact hrun
  case released => exact .inr rfl
  case nodeId => rfl
  case items => exact fun item hitem => hitem
  case gated => exact fun _ => ⟨rfl, rfl⟩
  case found => exact fun _ => .inl rfl
  case room => exact nofun
  case refused =>
    intro message h
    have hlen := congrArg List.length h
    rw [List.length_append] at hlen
    simp at hlen

theorem moves_check {s : Gates Params} {x : ℕ} {item : GatedItem Params}
    (h : s.itemAt x .checking = some item) :
    ∃ r turn, s.check node x item = s.setExecution x r turn ∧ Moves node s x r turn := by
  obtain ⟨hpc, hrun, hitem⟩ := itemAt_some h
  have hgated : (s.executions x).pc.gated = true := by
    rw [hpc]
    rfl
  have hroom : (∀ cap ∈ item.rateLimit.rateLimitCap,
      s.limiter.checkRateLimit (node.counterKey (s.executions x).nodeId item.params) cap
        item.rateLimit.rateLimitWindow s.now = .allowed) → HasRoom node s x := by
    intro hall item' hitem' cap hcap
    have heq : item = item' := Option.some.inj (hitem.symm.trans hitem')
    subst heq
    exact hall cap hcap
  unfold check
  cases hcap : item.rateLimit.rateLimitCap with
  | none =>
    dsimp only
    refine moves_goTo hrun hgated (.inl (hroom fun cap hmem => ?_))
    rw [hcap] at hmem
    contradiction
  | some cap =>
    dsimp only
    cases hv : s.limiter.checkRateLimit (node.counterKey (s.executions x).nodeId item.params) cap
        item.rateLimit.rateLimitWindow s.now with
    | allowed =>
      dsimp only
      refine moves_goTo hrun hgated (.inl (hroom fun cap' hmem => ?_))
      rw [hcap] at hmem
      have heq : cap = cap' := Option.some.inj hmem
      subst heq
      exact hv
    | refused retryAfterMs =>
      dsimp only
      exact moves_next _ hrun fun _ _ => hgated

theorem moves_guard {s : Gates Params} {x : ℕ} {item : GatedItem Params} (counted : ℤ)
    (body : GuardBudget → GuardResult) (h : s.itemAt x .guarding = some item) :
    ∃ r turn, s.guard node x item counted body = s.setExecution x r turn ∧ Moves node s x r turn := by
  obtain ⟨hpc, hrun, hitem⟩ := itemAt_some h
  have hgated : (s.executions x).pc.gated = true := by
    rw [hpc]
    rfl
  unfold guard
  by_cases hg : item.guarded = true
  · rw [if_pos hg]
    dsimp only
    cases node.runGuard (body (s.budget node x item counted)) with
    | error message => exact moves_fail message hrun
    | ok rejection =>
      cases rejection with
      | none => exact moves_goTo hrun hgated (.inr hpc)
      | some rejection => exact moves_next _ hrun fun _ _ => hgated
  · rw [if_neg hg]
    exact moves_goTo hrun hgated (.inr hpc)

theorem moves_settled {s : Gates Params} {x : ℕ} (error : Option String) (hrun : s.mayRun x) :
    ∃ r turn, (match error with
      | some message => s.fail node x message
      | none => s.next node x .result) = s.setExecution x r turn ∧ Moves node s x r turn := by
  cases error with
  | some message => exact moves_fail message hrun
  | none => exact moves_next .result hrun nofun

/-- The clock goes on, a run begins, a call is recorded, or a run goes on, which may take some time. -/
theorem step_cases {s t : Gates Params} {e : Event Params} (h : (machine node).step s e = some t) :
    (∃ ms, e = .tick ms ∧ t = s.elapse ms) ∨
    (∃ nodeId continueOnFail items, e = .execute nodeId continueOnFail items ∧
      t = s.execute nodeId continueOnFail items) ∨
    (∃ x item, e = .record x ∧ s.itemAt x .recording = some item ∧ t = s.record node x item) ∨
    (∃ x r turn ms, t = (s.elapse ms).setExecution x r turn ∧ Moves node (s.elapse ms) x r turn) := by
  have hnow : ∀ x r turn, t = s.setExecution x r turn → Moves node s x r turn →
      ∃ x r turn ms, t = (s.elapse ms).setExecution x r turn ∧ Moves node (s.elapse ms) x r turn := by
    intro x r turn ht hm
    refine ⟨x, r, turn, 0, ?_⟩
    rw [elapse_zero]
    exact ⟨ht, hm⟩
  change step node s e = some t at h
  cases e with
  | tick ms =>
    injection h with h
    exact .inl ⟨ms, rfl, h.symm⟩
  | execute nodeId continueOnFail items =>
    simp only [step] at h
    split at h
    next =>
      injection h with h
      exact .inr (.inl ⟨nodeId, continueOnFail, items, rfl, h.symm⟩)
    next => contradiction
  | prepared x =>
    obtain ⟨item, hitem, ht⟩ := Option.map_eq_some_iff.mp h
    obtain ⟨-, hrun, -⟩ := itemAt_some hitem
    obtain ⟨r, turn, hr, hm⟩ := moves_prepared hrun
    exact .inr (.inr (.inr (hnow x r turn (ht.symm.trans hr) hm)))
  | unprepared x message =>
    obtain ⟨item, hitem, ht⟩ := Option.map_eq_some_iff.mp h
    obtain ⟨-, hrun, -⟩ := itemAt_some hitem
    obtain ⟨r, turn, hr, hm⟩ := moves_fail message hrun
    exact .inr (.inr (.inr (hnow x r turn (ht.symm.trans hr) hm)))
  | check x =>
    obtain ⟨item, hitem, ht⟩ := Option.map_eq_some_iff.mp h
    obtain ⟨r, turn, hr, hm⟩ := moves_check hitem
    exact .inr (.inr (.inr (hnow x r turn (ht.symm.trans hr) hm)))
  | guard x ms body =>
    obtain ⟨item, hitem, ht⟩ := Option.map_eq_some_iff.mp h
    have hlater : (s.elapse ms).itemAt x .guarding = some item := hitem
    obtain ⟨r, turn, hr, hm⟩ := moves_guard s.now body hlater
    exact .inr (.inr (.inr ⟨x, r, turn, ms, ht.symm.trans hr, hm⟩))
  | record x =>
    obtain ⟨item, hitem, ht⟩ := Option.map_eq_some_iff.mp h
    exact .inr (.inr (.inl ⟨x, item, rfl, hitem, ht.symm⟩))
  | settled x error =>
    obtain ⟨item, hitem, ht⟩ := Option.map_eq_some_iff.mp h
    obtain ⟨-, hrun, -⟩ := itemAt_some hitem
    obtain ⟨r, turn, hr, hm⟩ := moves_settled error hrun
    exact .inr (.inr (.inr (hnow x r turn (ht.symm.trans hr) hm)))

/-! ### The history and the turn -/

/-- What holds without any assumption on the items. -/
structure Sound (s : Gates Params) : Prop where
  agree : ∀ key, Agree (s.now - day.WINDOW_MS) (s.limiter.timestamps key) (s.passes key)
  turn : ∀ x, (s.executions x).pc.gated = true → s.turn = some x
  found : ∀ x, (s.executions x).pc.gated = true → (s.executions x).found = s.limiter

theorem sound_initial (now : ℤ) : (initial now : Gates Params).Sound where
  agree _ := Agree.refl _ _
  turn _ := nofun
  found _ := nofun

theorem sound_tick {s : Gates Params} (h : s.Sound) (ms : ℕ) :
    (s.elapse ms).Sound where
  agree key := by
    refine (h.agree key).mono ?_
    show s.now - day.WINDOW_MS ≤ s.now + (ms : ℕ) - day.WINDOW_MS
    omega
  turn := h.turn
  found := h.found

/-- What a run that has begun is, and what the others are. -/
theorem executions_execute (s : Gates Params) (nodeId : String) (continueOnFail : Bool)
    (items : List (GatedItem Params)) (x : ℕ) :
    (s.execute nodeId continueOnFail items).executions x = s.executions x ∨
    (((s.execute nodeId continueOnFail items).executions x).pc.gated = false ∧
      ((s.execute nodeId continueOnFail items).executions x).nodeId = nodeId ∧
      ((s.execute nodeId continueOnFail items).executions x).items = items ∧
      ((s.execute nodeId continueOnFail items).executions x).returnData = []) := by
  unfold execute
  dsimp only
  by_cases hx : x = s.nextExecution
  · subst hx
    rw [Function.update_self]
    refine .inr ⟨?_, rfl, rfl, rfl⟩
    cases items <;> rfl
  · rw [Function.update_of_ne hx]
    exact .inl rfl

theorem sound_execute {s : Gates Params} (h : s.Sound) (nodeId : String) (continueOnFail : Bool)
    (items : List (GatedItem Params)) : (s.execute nodeId continueOnFail items).Sound where
  agree := h.agree
  turn x hx := by
    rcases executions_execute s nodeId continueOnFail items x with he | ⟨hg, -⟩
    · rw [he] at hx
      exact h.turn x hx
    · rw [hg] at hx
      contradiction
  found x hx := by
    rcases executions_execute s nodeId continueOnFail items x with he | ⟨hg, -⟩
    · rw [he] at hx ⊢
      exact h.found x hx
    · rw [hg] at hx
      contradiction

/-- No run but the one that moves is at its gates. -/
theorem Sound.alone {s : Gates Params} (h : s.Sound) {x y : ℕ} (hrun : s.mayRun x)
    (hy : (s.executions y).pc.gated = true) : y = x := by
  have hturn := h.turn y hy
  rcases hrun with hrun | hrun
  · rw [hrun] at hturn
    contradiction
  · exact Option.some.inj (hturn.symm.trans hrun)

theorem sound_moves {s : Gates Params} (h : s.Sound) {x : ℕ} {r : Execution Params}
    {turn : Option ℕ} (hm : Moves node s x r turn) : (s.setExecution x r turn).Sound := by
  have hother : ∀ y, y ≠ x → (s.executions y).pc.gated = false := by
    intro y hy
    by_contra hg
    exact hy (h.alone hm.mayRun (by simpa using hg))
  constructor
  case agree => exact h.agree
  case turn =>
    intro y hy
    by_cases hyx : y = x
    · subst hyx
      rw [setExecution_self] at hy
      exact (hm.gated hy).1
    · rw [setExecution_other hyx, hother y hyx] at hy
      contradiction
  case found =>
    intro y hy
    by_cases hyx : y = x
    · subst hyx
      rw [setExecution_self] at hy ⊢
      rcases hm.found hy with hf | ⟨hold, hf⟩
      · exact hf
      · exact hf.trans (h.found y hold)
    · rw [setExecution_other hyx, hother y hyx] at hy
      contradiction

theorem passes_record (s : Gates Params) (x : ℕ) (item : GatedItem Params) (key : String) :
    (s.record node x item).passes key =
      if node.counterKey (s.executions x).nodeId item.params = key then s.passes key ++ [s.now]
      else s.passes key := by
  unfold passes record
  dsimp only
  rw [List.filter_append, List.map_append]
  by_cases hk : node.counterKey (s.executions x).nodeId item.params = key
  · rw [if_pos hk]
    simp [hk]
  · rw [if_neg hk]
    simp [hk]

theorem gated_record {s : Gates Params} (h : s.Sound) {x : ℕ} {item : GatedItem Params}
    (hitem : s.itemAt x .recording = some item) (y : ℕ) :
    ((s.record node x item).executions y).pc.gated = false := by
  obtain ⟨-, hrun, -⟩ := itemAt_some hitem
  by_cases hyx : y = x
  · subst hyx
    rw [record_self]
    rfl
  · rw [record_other hyx]
    by_contra hg
    exact hyx (h.alone hrun (by simpa using hg))

theorem sound_record {s : Gates Params} (h : s.Sound) {x : ℕ} {item : GatedItem Params}
    (hitem : s.itemAt x .recording = some item) : (s.record node x item).Sound := by
  constructor
  case agree =>
    intro key
    rw [passes_record]
    change Agree (s.now - day.WINDOW_MS) ((s.limiter.recordCall _ s.now).timestamps key) _
    rw [RateLimiter.timestamps_recordCall]
    by_cases hk : node.counterKey (s.executions x).nodeId item.params = key
    · rw [if_pos hk, if_pos hk, hk]
      exact (h.agree key).trim.snoc s.now
    · rw [if_neg hk, if_neg hk]
      exact h.agree key
  case turn =>
    intro y hy
    rw [gated_record h hitem] at hy
    contradiction
  case found =>
    intro y hy
    rw [gated_record h hitem] at hy
    contradiction

theorem sound_step {s t : Gates Params} {e : Event Params} (h : s.Sound)
    (hs : (machine node).step s e = some t) : t.Sound := by
  rcases step_cases hs with ⟨ms, -, rfl⟩ | ⟨nodeId, continueOnFail, items, -, rfl⟩ |
    ⟨x, item, -, hitem, rfl⟩ | ⟨x, r, turn, ms, rfl, hm⟩
  · exact sound_tick h ms
  · exact sound_execute h nodeId continueOnFail items
  · exact sound_record h hitem
  · exact sound_moves (sound_tick h ms) hm

theorem sound_reach {ok : Guard (Gates Params) (Event Params)} {s : Gates Params}
    (h : (machine node).Reach ok s) : s.Sound := by
  refine h.invariant (P := Sound) ?_ ?_
  · intro s hs
    obtain ⟨now, rfl⟩ := hs
    exact sound_initial now
  · intro s e t _ hs hstep _
    exact sound_step hs hstep

/-- What the limiter counts in a window is what has passed in it. -/
theorem Sound.countInWindow {s : Gates Params} (h : s.Sound) (key : String)
    (window : RateLimitWindow) :
    s.limiter.countInWindow key window s.now = (after (s.now - window.WINDOW_MS) (s.passes key)).length := by
  unfold RateLimiter.countInWindow RateLimiter.activeTimestamps
  have hle := window.ms_le_day
  rw [h.agree key _ (by omega)]

/-! ### The cap -/

section Cap

variable {key : String} {cap : ℕ} {window : RateLimitWindow}

/-- At the guard and at the record there is room in the window for one more call. -/
structure Limited (node : Node Params) (key : String) (cap : ℕ) (window : RateLimitWindow)
    (s : Gates Params) : Prop where
  shared : ∀ x, ∀ item ∈ (s.executions x).items,
    node.counterKey (s.executions x).nodeId item.params = key →
      item.rateLimit.maxCalls = some (cap : ℤ) ∧ item.rateLimit.rateLimitWindow = window
  room : ∀ x, (s.executions x).pc = .guarding ∨ (s.executions x).pc = .recording →
    ∀ item ∈ (s.executions x).items.head?,
      node.counterKey (s.executions x).nodeId item.params = key →
        (after (s.now - window.WINDOW_MS) (s.passes key)).length < cap
  capped : Capped cap window.WINDOW_MS (s.passes key)

theorem gated_of_room {pc : GatePc} (h : pc = .guarding ∨ pc = .recording) : pc.gated = true := by
  rcases h with rfl | rfl
  · rfl
  · rfl

theorem limited_tick {s : Gates Params} (h : Limited node key cap window s) (ms : ℕ) :
    Limited node key cap window (s.elapse ms) where
  shared := h.shared
  room x hx item hitem hkey := by
    refine Nat.lt_of_le_of_lt (length_after_le ?_ _) (h.room x hx item hitem hkey)
    show s.now - window.WINDOW_MS ≤ s.now + (ms : ℕ) - window.WINDOW_MS
    omega
  capped := h.capped

theorem limited_execute {s : Gates Params} (h : Limited node key cap window s) (nodeId : String)
    (continueOnFail : Bool) (items : List (GatedItem Params))
    (hitems : ∀ item ∈ items, node.counterKey nodeId item.params = key →
      item.rateLimit.maxCalls = some (cap : ℤ) ∧ item.rateLimit.rateLimitWindow = window) :
    Limited node key cap window (s.execute nodeId continueOnFail items) where
  shared x item hitem hkey := by
    rcases executions_execute s nodeId continueOnFail items x with he | ⟨-, hid, hits, -⟩
    · rw [he] at hitem hkey
      exact h.shared x item hitem hkey
    · rw [hits] at hitem
      rw [hid] at hkey
      exact hitems item hitem hkey
  room x hx item hitem hkey := by
    rcases executions_execute s nodeId continueOnFail items x with he | ⟨hg, -⟩
    · rw [he] at hx hitem hkey
      exact h.room x hx item hitem hkey
    · rw [gated_of_room hx] at hg
      contradiction
  capped := h.capped

/-- The check lets an item with the key through only if there is room. -/
theorem HasRoom.room {s : Gates Params} {x : ℕ} (hcap : 0 < cap) (hs : s.Sound)
    (h : Limited node key cap window s) (hr : HasRoom node s x) {item : GatedItem Params}
    (hitem : item ∈ (s.executions x).items.head?)
    (hkey : node.counterKey (s.executions x).nodeId item.params = key) :
    (after (s.now - window.WINDOW_MS) (s.passes key)).length < cap := by
  obtain ⟨hmax, hwin⟩ := h.shared x item (List.mem_of_mem_head? hitem) hkey
  have hlimit : item.rateLimit.rateLimitCap = some (cap : ℤ) := by
    unfold RateLimit.rateLimitCap
    rw [hmax]
    simpa using hcap
  have hallowed := hr item hitem (cap : ℤ) hlimit
  rw [hkey, hwin, RateLimiter.checkRateLimit_allowed, hs.countInWindow] at hallowed
  omega

theorem limited_moves {s : Gates Params} (hcap : 0 < cap) (hs : s.Sound)
    (h : Limited node key cap window s) {x : ℕ} {r : Execution Params} {turn : Option ℕ}
    (hm : Moves node s x r turn) : Limited node key cap window (s.setExecution x r turn) := by
  constructor
  case shared =>
    intro y item hitem hkey
    by_cases hyx : y = x
    · subst hyx
      rw [setExecution_self] at hitem hkey
      rw [hm.nodeId] at hkey
      exact h.shared y item (hm.items item hitem) hkey
    · rw [setExecution_other hyx] at hitem hkey
      exact h.shared y item hitem hkey
  case room =>
    intro y hy item hitem hkey
    change (after (s.now - window.WINDOW_MS) (s.passes key)).length < cap
    by_cases hyx : y = x
    · subst hyx
      rw [setExecution_self] at hy hitem hkey
      rw [(hm.gated (gated_of_room hy)).2] at hitem
      rw [hm.nodeId] at hkey
      rcases hm.room hy with hroom | hguarding
      · exact hroom.room hcap hs h hitem hkey
      · exact h.room y (.inl hguarding) item hitem hkey
    · rw [setExecution_other hyx] at hy hitem hkey
      exact h.room y hy item hitem hkey
  case capped => exact h.capped

theorem limited_record {s : Gates Params} (hs : s.Sound) (h : Limited node key cap window s)
    {x : ℕ} {item : GatedItem Params} (hitem : s.itemAt x .recording = some item) :
    Limited node key cap window (s.record node x item) := by
  obtain ⟨hpc, -, hhead⟩ := itemAt_some hitem
  constructor
  case shared =>
    intro y item' hitem' hkey
    by_cases hyx : y = x
    · subst hyx
      rw [record_self] at hitem' hkey
      exact h.shared y item' hitem' hkey
    · rw [record_other hyx] at hitem' hkey
      exact h.shared y item' hitem' hkey
  case room =>
    intro y hy
    have hgated : ((s.record node x item).executions y).pc.gated = false := gated_record hs hitem y
    rw [gated_of_room hy] at hgated
    contradiction
  case capped =>
    rw [passes_record]
    by_cases hkey : node.counterKey (s.executions x).nodeId item.params = key
    · rw [if_pos hkey]
      exact h.capped.snoc le_rfl (h.room x (.inr hpc) item hhead hkey)
    · rw [if_neg hkey]
      exact h.capped

theorem limited_step {s t : Gates Params} {e : Event Params} (hcap : 0 < cap) (hs : s.Sound)
    (h : Limited node key cap window s) (hstep : (machine node).step s e = some t)
    (hg : Sharing node key cap window s e t) : Limited node key cap window t := by
  rcases step_cases hstep with ⟨ms, -, rfl⟩ | ⟨nodeId, continueOnFail, items, rfl, rfl⟩ |
    ⟨x, item, -, hitem, rfl⟩ | ⟨x, r, turn, ms, rfl, hm⟩
  · exact limited_tick h ms
  · exact limited_execute h nodeId continueOnFail items hg
  · exact limited_record hs h hitem
  · exact limited_moves hcap (sound_tick hs ms) (limited_tick h ms) hm

theorem limited_reach {s : Gates Params} (hcap : 0 < cap)
    (h : (machine node).Reach (Sharing node key cap window) s) : Limited node key cap window s := by
  refine h.invariant (P := Limited node key cap window) ?_ ?_
  · intro s hs
    obtain ⟨now, rfl⟩ := hs
    exact ⟨nofun, nofun, capped_nil cap _⟩
  · intro s e t hr hs hstep hg
    exact limited_step hcap (sound_reach hr) hs hstep hg

end Cap

/-! ### Refusals -/

theorem refuses_found {s t : Gates Params} {e : Event Params} (hs : s.Sound)
    (hstep : (machine node).step s e = some t) {x : ℕ} (h : Refuses s t x) :
    t.limiter = (s.executions x).found ∧ t.passed = s.passed := by
  obtain ⟨message, h⟩ := h
  have hne : (t.executions x).returnData ≠ (s.executions x).returnData := by
    rw [h]
    simp
  rcases step_cases hstep with ⟨ms, -, rfl⟩ | ⟨nodeId, continueOnFail, items, -, rfl⟩ |
    ⟨y, item, -, -, rfl⟩ | ⟨y, r, turn, ms, rfl, hm⟩
  · exact absurd rfl hne
  · rcases executions_execute s nodeId continueOnFail items x with he | ⟨-, -, -, hdata⟩
    · exact absurd (congrArg Execution.returnData he) hne
    · rw [hdata] at h
      simp at h
  · refine absurd ?_ hne
    by_cases hxy : x = y
    · subst hxy
      rw [record_self]
    · rw [record_other hxy]
  · by_cases hxy : x = y
    · subst hxy
      rw [setExecution_self] at h
      exact ⟨(hs.found x (hm.refused message h)).symm, rfl⟩
    · refine absurd ?_ hne
      rw [setExecution_other hxy]
      rfl

/-- In every window that ends anywhere, at most as many calls of a key pass both gates as its items
have for a cap, and an item that a gate refuses leaves the history as it was when it reached the
gates. -/
theorem slidingCap {key : String} {cap : ℕ} {window : RateLimitWindow} (hcap : 0 < cap)
    {s : Gates Params} (h : (machine node).Reach (Sharing node key cap window) s) :
    (∀ t, (within (t - window.WINDOW_MS) t (s.passes key)).length ≤ cap) ∧
      ∀ e t x, (machine node).step s e = some t → Refuses s t x →
        t.limiter = (s.executions x).found ∧ t.passed = s.passed := by
  refine ⟨(limited_reach hcap h).capped, fun e t x hstep hrefuses => ?_⟩
  exact refuses_found (sound_reach h) hstep hrefuses

/-! ### A third call within a minute -/

instance (node : Node Params) (key : String) (cap : ℕ) (window : RateLimitWindow)
    (s : Gates Params) : ∀ e t, Decidable (Sharing node key cap window s e t) := by
  rintro (_ | _) t <;> dsimp only [Sharing] <;> infer_instance

def setLed : GatedItem ToolParams := ⟨⟨"set_led", none⟩, ⟨some 2, none⟩, false⟩

/-- The first item of run 0 passes both gates. -/
def passing : List (Event ToolParams) :=
  [.prepared 0, .check 0, .tick 5, .guard 0 0 fun _ => .returned .undefined "undefined", .record 0,
    .settled 0 none]

def thirdCallRun : List (Event ToolParams) :=
  .execute "node" true [setLed, setLed, setLed] :: (passing ++ passing ++ [.prepared 0])

def atThirdCall : Gates ToolParams :=
  (machine unoQTool).after (Sharing unoQTool "node:set_led" 2 .minute) (initial 0) thirdCallRun

def afterThirdCall : Gates ToolParams :=
  ((machine unoQTool).step atThirdCall (.check 0)).getD atThirdCall

theorem thirdCallRun_refused : atThirdCall.passes "node:set_led" = [5, 10] ∧
    (within (64 - 60000) 64 (atThirdCall.passes "node:set_led")).length ≤ 2 ∧
    Refuses atThirdCall afterThirdCall 0 ∧
    afterThirdCall.limiter = (atThirdCall.executions 0).found ∧
    afterThirdCall.passed = atThirdCall.passed := by
  have hinit : (machine unoQTool).Reach (Sharing unoQTool "node:set_led" 2 .minute) (initial 0) :=
    .init ⟨0, rfl⟩
  have hreach := hinit.after thirdCallRun
  have hsome : ((machine unoQTool).step atThirdCall (.check 0)).isSome = true := by decide +kernel
  obtain ⟨t, ht⟩ := Option.isSome_iff_exists.mp hsome
  have hafter : afterThirdCall = t := by
    unfold afterThirdCall
    rw [ht, Option.getD_some]
  have hrefuses : Refuses atThirdCall afterThirdCall 0 :=
    ⟨"Refused: rate limit of 2 per minute exceeded. Retry in ~60s.", by decide +kernel⟩
  have h := slidingCap (by decide) hreach
  refine ⟨by decide +kernel, h.1 64, hrefuses, ?_⟩
  exact h.2 (.check 0) _ 0 (hafter ▸ ht) hrefuses

end Gates

end UnoQ.Nodes
