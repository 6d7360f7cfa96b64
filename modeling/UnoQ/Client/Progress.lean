import UnoQ.Client.Deadlines

/-!
# Calls come to an end

Whatever the router and the transport do, or fail to do: an unfinished `callWithOptions` has a timer
that runs, or something to go on with. Time alone finishes it, no later than a millisecond or two after
its deadline or, if it is retried after that, after the retry.
-/

namespace UnoQ.Client
open Codec Transition

theorem setTimeoutDelay_le (ms : ℤ) : setTimeoutDelay ms ≤ max ms 1 := by
  unfold setTimeoutDelay
  split
  next => exact le_max_left _ _
  next => exact le_max_right _ _

namespace Calls

/-- No timer of a call is due later: its deadline, or the next millisecond. -/
def horizon (c : Calls) (k : ℕ) : ℤ := max (c.calls k).deadline (c.now + 1)

structure Armed (c : Calls) : Prop where
  timed : ∀ a < c.nextAttempt, (c.attempts a).settled = none →
    ∃ due, (c.attempts a).timer = some due ∧ due ≤ c.horizon (c.attempts a).call
  waiting : ∀ k due l, (c.calls k).pc = .waiting due l → due ≤ c.horizon k

def Begun (c : Calls) : Prop := ∀ k < c.nextCall, (c.calls k).pc ≠ .unused

theorem horizon_mono {c d : Calls} {k : ℕ} (hnow : c.now ≤ d.now)
    (hdeadline : (d.calls k).deadline = (c.calls k).deadline) : c.horizon k ≤ d.horizon k := by
  unfold horizon
  rw [hdeadline]
  omega

/-! ### Kept by every operation -/

/-- No attempt begins, and no call begins to wait. -/
theorem Armed.frame {c d : Calls} (h : c.Armed) (hnext : d.nextAttempt = c.nextAttempt)
    (hattempts : ∀ a, (d.attempts a).settled = none → (c.attempts a).settled = none ∧
      (d.attempts a).timer = (c.attempts a).timer ∧ (d.attempts a).call = (c.attempts a).call)
    (hnow : c.now ≤ d.now) (hdeadline : ∀ k, (d.calls k).deadline = (c.calls k).deadline)
    (hpc : ∀ k due l, (d.calls k).pc = .waiting due l → ∃ l', (c.calls k).pc = .waiting due l') :
    d.Armed where
  timed := by
    intro a ha hs
    obtain ⟨hsettled, htimer, hcall⟩ := hattempts a hs
    obtain ⟨due, hdue, hle⟩ := h.timed a (hnext ▸ ha) hsettled
    refine ⟨due, htimer.trans hdue, ?_⟩
    rw [hcall]
    exact hle.trans (horizon_mono hnow (hdeadline _))
  waiting := by
    intro k due l hw
    obtain ⟨l', hl'⟩ := hpc k due l hw
    exact (h.waiting k due l' hl').trans (horizon_mono hnow (hdeadline k))

theorem armed_retire {c : Calls} (h : c.Armed) (id a : ℕ) (via : Option ℕ) (r : Settlement) :
    (c.retire id a via r).Armed := by
  refine h.frame rfl ?_ (le_refl _) (fun _ => rfl) fun k due l hw => ⟨l, hw⟩
  intro x hx
  rw [retire_attempts] at hx ⊢
  by_cases hxa : x = a
  · rw [if_pos hxa] at hx
    cases hs : (c.attempts a).settled <;> simp [hs] at hx
  · rw [if_neg hxa] at hx ⊢
    exact ⟨hx, rfl, rfl⟩

theorem armed_rejectAll (l : List (ℕ × ℕ)) : ∀ {c : Calls}, c.Armed → (rejectAll l c).Armed := by
  induction l with
  | nil => exact fun h => h
  | cons p rest ih => exact fun h => ih (armed_retire h p.1 p.2 _ _)

@[simp] theorem horizon_setPc (c : Calls) (k : ℕ) (pc : Pc) (x : ℕ) :
    (c.setPc k pc).horizon x = c.horizon x := by
  unfold horizon
  rw [setPc_deadline]
  rfl

theorem armed_setPc {c : Calls} (h : c.Armed) (k : ℕ) {pc : Pc}
    (hpc : ∀ due l, pc = .waiting due l → due ≤ c.horizon k) : (c.setPc k pc).Armed where
  timed := by
    intro a ha hs
    obtain ⟨due, hdue, hle⟩ := h.timed a ha hs
    rw [horizon_setPc]
    exact ⟨due, hdue, hle⟩
  waiting := by
    intro x due l hw
    rw [horizon_setPc]
    rw [setPc_calls] at hw
    split at hw
    next hx =>
      rw [hx]
      exact hpc due l hw
    next => exact h.waiting x due l hw

theorem remaining_horizon (c : Calls) (k : ℕ) :
    c.now + setTimeoutDelay (max 0 ((c.calls k).deadline - c.now)) ≤ c.horizon k := by
  have h := setTimeoutDelay_le (max 0 ((c.calls k).deadline - c.now))
  unfold horizon
  omega

/-- What `attempt` does to the attempts and to the calls. -/
theorem attempt_parts (mp : Msgpack) (c : Calls) (k : ℕ) : ∃ att : Attempt,
    (c.attempt mp k).attempts = Function.update c.attempts c.nextAttempt att ∧
      (c.attempt mp k).nextAttempt = c.nextAttempt + 1 ∧
      (c.attempt mp k).calls = (c.setPc k (.awaiting c.nextAttempt)).calls ∧
      (c.attempt mp k).now = c.now ∧ (c.attempt mp k).nextCall = c.nextCall ∧ att.call = k ∧
      (att.settled = none → ∃ id, att.id = some id ∧
        att.timer = some (c.now + setTimeoutDelay (max 0 ((c.calls k).deadline - c.now)))) := by
  unfold attempt
  dsimp only
  cases c.connected with
  | false => exact ⟨_, rfl, rfl, rfl, rfl, rfl, rfl, by simp⟩
  | true =>
    rw [if_pos rfl]
    cases encodeRequest mp (nextMsgId c.msgid) (c.calls k).method (c.calls k).params with
    | none => exact ⟨_, rfl, rfl, rfl, rfl, rfl, rfl, by simp⟩
    | some bs => exact ⟨_, rfl, rfl, rfl, rfl, rfl, rfl, fun _ => ⟨_, rfl, rfl⟩⟩

theorem armed_attempt {c : Calls} (h : c.Armed) (mp : Msgpack) (k : ℕ) : (c.attempt mp k).Armed := by
  obtain ⟨att, hattempts, hnext, hcalls, hnow, -, hcall, htimer⟩ := attempt_parts mp c k
  have hhorizon : ∀ x, (c.attempt mp k).horizon x = c.horizon x := by
    intro x
    unfold horizon
    rw [hcalls, hnow, setPc_deadline]
  constructor
  · intro a ha hs
    rw [hattempts, Function.update_apply] at hs ⊢
    rw [hnext] at ha
    by_cases hlast : a = c.nextAttempt
    · rw [if_pos hlast] at hs ⊢
      obtain ⟨id, -, hdue⟩ := htimer hs
      refine ⟨_, hdue, ?_⟩
      rw [hcall, hhorizon]
      exact remaining_horizon c k
    · rw [if_neg hlast] at hs ⊢
      rw [hhorizon]
      exact h.timed a (by omega) hs
  · intro x due l hw
    rw [hcalls] at hw
    rw [hhorizon, ← horizon_setPc c k (.awaiting c.nextAttempt)]
    exact (armed_setPc h k (by simp)).waiting x due l hw

theorem armed_invoke {c : Calls} (h : c.Armed) (hi : c.Inv) (method : String) (params : List JsValue)
    (opts : CallOptions) : (c.invoke method params opts).Armed := by
  have hcalls : ∀ k, k ≠ c.nextCall → (c.invoke method params opts).calls k = c.calls k :=
    fun k hk => Function.update_of_ne hk _ _
  constructor
  · intro a ha hs
    have hcaller := hi.caller a ha
    obtain ⟨due, hdue, hle⟩ := h.timed a ha hs
    refine ⟨due, hdue, ?_⟩
    unfold horizon
    rw [show ((c.invoke method params opts).attempts a).call = (c.attempts a).call from rfl,
      hcalls _ (Nat.ne_of_lt hcaller)]
    exact hle
  · intro k due l hw
    have hk : k ≠ c.nextCall := by
      rintro rfl
      simp [invoke] at hw
    unfold horizon
    rw [hcalls k hk] at hw ⊢
    exact h.waiting k due l hw

theorem armed_caught {c : Calls} (h : c.Armed) (k : ℕ) (err : BridgeError) : (c.caught k err).Armed := by
  unfold caught
  dsimp only
  split
  · exact armed_setPc h k (by simp)
  · split
    · exact armed_setPc h k (by simp)
    next hleft =>
      refine armed_setPc h k ?_
      intro due l hw
      cases hw
      have hle := setTimeoutDelay_le ((c.calls k).deadline - c.now)
      unfold horizon
      omega

theorem armed_apply {c : Calls} (h : c.Armed) (hi : c.Inv) (mp : Msgpack) (e : Event) :
    (c.apply mp e).Armed := by
  cases e with
  | tick ms =>
    refine h.frame rfl (fun a ha => ⟨ha, rfl, rfl⟩) ?_ (fun _ => rfl) fun k due l hw => ⟨l, hw⟩
    change c.now ≤ c.now + ms
    omega
  | connected => exact h.frame rfl (fun a ha => ⟨ha, rfl, rfl⟩) (le_refl _) (fun _ => rfl) fun k due l hw => ⟨l, hw⟩
  | callWithOptions method params opts => exact armed_attempt (armed_invoke h hi method params opts) mp _
  | respond msgid r =>
    change (c.respond msgid r).Armed
    unfold respond
    split
    · exact h
    · exact armed_retire h _ _ _ _
  | expire a =>
    change (c.expire a).Armed
    unfold expire
    split
    · exact h
    · exact armed_retire h _ _ _ _
  | onTransportClose =>
    have hdown : ({ c with connected := false } : Calls).Armed :=
      h.frame rfl (fun a ha => ⟨ha, rfl, rfl⟩) (le_refl _) (fun _ => rfl) fun k due l hw => ⟨l, hw⟩
    have hall := armed_rejectAll c.pending.entries hdown
    exact hall.frame rfl (fun a ha => ⟨ha, rfl, rfl⟩) (le_refl _) (fun _ => rfl) fun k due l hw => ⟨l, hw⟩
  | resume k =>
    change (c.resume mp k).Armed
    unfold resume
    split
    · split
      · exact h
      · exact armed_setPc h k (by simp)
      · exact armed_caught h k _
    · exact armed_attempt h mp k
    · exact armed_setPc h k (by simp)
    · exact h
  | giveUp k => exact armed_setPc h k (by simp)
  | emitReconnect =>
    refine h.frame rfl (fun a ha => ⟨ha, rfl, rfl⟩) (le_refl _) ?_ ?_
    · intro k
      change (wakeOne (c.calls k)).deadline = _
      rcases wakeOne_eq (c.calls k) with hw | ⟨due, -, hw⟩ <;> rw [hw]
    · intro k due l hw
      change (wakeOne (c.calls k)).pc = _ at hw
      rcases wakeOne_eq (c.calls k) with he | ⟨due', -, he⟩
      · rw [he] at hw
        exact ⟨l, hw⟩
      · simp [he] at hw
  | removeAllListeners =>
    refine h.frame rfl (fun a ha => ⟨ha, rfl, rfl⟩) (le_refl _) ?_ ?_
    · intro k
      change (unlistenOne (c.calls k)).deadline = _
      rcases unlistenOne_eq (c.calls k) with hw | ⟨due, l, -, hw⟩ <;> rw [hw]
    · intro k due l hw
      change (unlistenOne (c.calls k)).pc = _ at hw
      rcases unlistenOne_eq (c.calls k) with he | ⟨due', l', hwaits, he⟩
      · rw [he] at hw
        exact ⟨l, hw⟩
      · rw [he] at hw
        cases hw
        exact ⟨l', hwaits⟩

theorem begun_setPc {c : Calls} (h : c.Begun) (k : ℕ) {pc : Pc} (hpc : pc ≠ .unused) :
    (c.setPc k pc).Begun := by
  intro x hx
  rw [setPc_calls]
  split
  · exact hpc
  · exact h x hx

theorem begun_same {c d : Calls} (h : c.Begun) (hnext : d.nextCall = c.nextCall)
    (hcalls : d.calls = c.calls) : d.Begun := by
  intro k hk
  rw [hcalls]
  exact h k (hnext ▸ hk)

theorem begun_attempt {c : Calls} (mp : Msgpack) {k : ℕ}
    (h : ∀ x < c.nextCall, x ≠ k → (c.calls x).pc ≠ .unused) : (c.attempt mp k).Begun := by
  obtain ⟨att, -, -, hcalls, -, hnext, -, -⟩ := attempt_parts mp c k
  intro x hx
  rw [hcalls, setPc_calls]
  split
  · simp
  next hne => exact h x (hnext ▸ hx) hne

theorem begun_apply {c : Calls} (h : c.Begun) (mp : Msgpack) (e : Event) : (c.apply mp e).Begun := by
  cases e with
  | tick ms => exact h
  | connected => exact h
  | callWithOptions method params opts =>
    refine begun_attempt mp ?_
    intro x hx hne
    have hx' : x < c.nextCall + 1 := hx
    rw [show (c.invoke method params opts).calls x = c.calls x from Function.update_of_ne hne _ _]
    exact h x (by omega)
  | respond msgid r =>
    change (c.respond msgid r).Begun
    unfold respond
    split
    · exact h
    · exact begun_same h rfl rfl
  | expire a =>
    change (c.expire a).Begun
    unfold expire
    split
    · exact h
    · exact begun_same h rfl rfl
  | onTransportClose =>
    obtain ⟨hnext, hcalls⟩ := rejectAll_same c.pending.entries { c with connected := false }
    exact begun_same h hnext hcalls
  | resume k =>
    change (c.resume mp k).Begun
    unfold resume
    split
    · split
      · exact h
      · exact begun_setPc h k (by simp)
      · unfold caught
        dsimp only
        split
        · exact begun_setPc h k (by simp)
        · split
          · exact begun_setPc h k (by simp)
          · exact begun_setPc h k (by simp)
    · exact begun_attempt mp fun x hx _ => h x hx
    · exact begun_setPc h k (by simp)
    · exact h
  | giveUp k => exact begun_setPc h k (by simp)
  | emitReconnect =>
    intro k hk
    change (wakeOne (c.calls k)).pc ≠ .unused
    rcases wakeOne_eq (c.calls k) with he | ⟨due, -, he⟩
    · rw [he]
      exact h k hk
    · simp [he]
  | removeAllListeners =>
    intro k hk
    change (unlistenOne (c.calls k)).pc ≠ .unused
    rcases unlistenOne_eq (c.calls k) with he | ⟨due, l, -, he⟩
    · rw [he]
      exact h k hk
    · simp [he]

/-- The calls of a run, with their timers. -/
structure Running (c : Calls) : Prop where
  inv : c.Inv
  armed : c.Armed
  begun : c.Begun

theorem running_apply {c : Calls} (h : c.Running) (mp : Msgpack) {e : Event} (he : c.enabled e = true) :
    (c.apply mp e).Running :=
  ⟨inv_apply h.inv mp e he, armed_apply h.armed h.inv mp e, begun_apply h.begun mp e⟩

theorem running_reach {mp : Msgpack} {ok : Guard Calls Event} {c : Calls}
    (h : (machine mp).Reach ok c) : c.Running := by
  refine h.invariant ?_ ?_
  · rintro c rfl
    refine ⟨inv_initial, ⟨?_, ?_⟩, ?_⟩
    · intro a ha
      exact absurd ha (Nat.not_lt_zero a)
    · intro k due l hw
      cases hw
    · intro k hk
      exact absurd hk (Nat.not_lt_zero k)
  · intro c e d _ hr hs _
    obtain ⟨he, rfl⟩ := Machine.ofEnabled_step.mp hs
    exact running_apply hr mp he

/-! ### A call alone with the clock -/

/-- Time passes, and the timers and continuations of the call `k` run: nothing else happens. -/
def own (k : ℕ) : Guard Calls Event := fun c e _ =>
  match e with
  | .tick _ => True
  | .expire a => (c.attempts a).call = k
  | .giveUp x => x = k
  | .resume x => x = k
  | _ => False

/-- The call `k` is brought to its end from `c` by itself, before the clock shows `time`. -/
def EndsAlone (mp : Msgpack) (c : Calls) (k : ℕ) (time : ℤ) : Prop :=
  ∃ d, ((machine mp).startingAt c).Reach (own k) d ∧ d.now ≤ time ∧ ∃ r, (d.calls k).pc = .done r

variable {mp : Msgpack} {c : Calls} {k : ℕ} {time : ℤ}

theorem endsAlone_done {r : Settlement} (h : (c.calls k).pc = .done r) (ht : c.now ≤ time) :
    EndsAlone mp c k time := ⟨c, .init rfl, ht, r, h⟩

/-- One more event before the end. -/
theorem endsAlone_step {e : Event} (he : c.enabled e = true) (hown : own k c e (c.apply mp e))
    (h : EndsAlone mp (c.apply mp e) k time) : EndsAlone mp c k time := by
  obtain ⟨d, hreach, hnow, hdone⟩ := h
  have hfirst : ((machine mp).startingAt c).Reach (own k) (c.apply mp e) :=
    Machine.Reach.step (.init rfl) (Machine.ofEnabled_step.mpr ⟨he, rfl⟩) hown
  exact ⟨d, hfirst.append hreach, hnow, hdone⟩

/-- A timer that is due by `time` is waited for. -/
theorem endsAlone_tick (due : ℤ) (h : EndsAlone mp { c with now := max c.now due } k time) :
    EndsAlone mp c k time := by
  refine endsAlone_step (e := .tick (max c.now due - c.now).toNat) rfl trivial ?_
  change EndsAlone mp { c with now := c.now + ((max c.now due - c.now).toNat : ℤ) } k time
  have htime : c.now + ((max c.now due - c.now).toNat : ℤ) = max c.now due := by omega
  rw [htime]
  exact h

theorem endsAlone_waiting (due : ℤ) (l : Bool) (h : (c.calls k).pc = .waiting due l)
    (hdue : due ≤ time) (hnow : c.now ≤ time) : EndsAlone mp c k time := by
  refine endsAlone_tick due ?_
  have hgives : givesUp { c with now := max c.now due } k = true := by
    simp [givesUp, h]
  refine endsAlone_step (e := .giveUp k) hgives rfl ?_
  have hwoken : ((giveUp { c with now := max c.now due } k).calls k).pc = .woken false := by
    simp [giveUp, setPc_calls]
  refine endsAlone_step (e := .resume k) (by simp [enabled, apply, ready, hwoken]) rfl ?_
  refine endsAlone_done (r := .failure (.timeout (c.calls k).method (c.calls k).timeoutMs)) ?_ ?_
  · simp [apply, resume, setPc_calls, giveUp]
  · simp only [apply, resume, hwoken]
    exact max_le hnow hdue

/-- An attempt that has been settled is the last one, or the call waits for a connection first. -/
theorem endsAlone_settled {a : ℕ} {r : Settlement} (h : (c.calls k).pc = .awaiting a)
    (hs : (c.attempts a).settled = some r) (hnow : c.now ≤ time)
    (hdeadline : (c.calls k).deadline ≤ time) : EndsAlone mp c k time := by
  refine endsAlone_step (e := .resume k) (by simp [enabled, ready, h, hs]) rfl ?_
  cases r with
  | result v =>
    refine endsAlone_done (r := .result v) ?_ ?_
    · simp [apply, resume, h, hs, setPc_calls]
    · simpa [apply, resume, h, hs, setPc] using hnow
  | failure err =>
    have heq : c.apply mp (.resume k) = c.caught k err := by simp [apply, resume, h, hs]
    rw [heq]
    unfold caught
    dsimp only
    split
    · exact endsAlone_done (by rw [setPc_calls, if_pos rfl]) hnow
    · split
      · exact endsAlone_done (by rw [setPc_calls, if_pos rfl]) hnow
      next hleft =>
        have hdue : c.now + setTimeoutDelay ((c.calls k).deadline - c.now) ≤ time := by
          have hle := setTimeoutDelay_le ((c.calls k).deadline - c.now)
          omega
        exact endsAlone_waiting _ true (by rw [setPc_calls, if_pos rfl]) hdue hnow

theorem now_lt_horizon (c : Calls) (k : ℕ) : c.now < c.horizon k := by
  unfold horizon
  omega

theorem deadline_le_horizon (c : Calls) (k : ℕ) : (c.calls k).deadline ≤ c.horizon k :=
  le_max_left _ _

/-- The timer of an attempt ends the whole call: a timeout is never retried. -/
theorem endsAlone_unsettled (h : c.Running) {a : ℕ} (ha : (c.calls k).pc = .awaiting a)
    (hs : (c.attempts a).settled = none) : EndsAlone mp c k (c.horizon k) := by
  obtain ⟨⟨hlt, hcall⟩, -⟩ := (h.inv.calls k).awaiting a ha
  obtain ⟨due, htimer, hle⟩ := h.armed.timed a hlt hs
  rw [hcall] at hle
  obtain ⟨id, hid, -⟩ := h.inv.written a hlt hs
  have hnow : max c.now due ≤ c.horizon k := max_le (le_of_lt (now_lt_horizon c k)) hle
  refine endsAlone_tick due ?_
  refine endsAlone_step (e := .expire a) (by simp [enabled, expires, htimer]) hcall ?_
  have hexpire : apply mp { c with now := max c.now due } (.expire a) =
      retire { c with now := max c.now due } id a none
        (.failure (.timeout (c.calls k).method (c.calls k).timeoutMs)) := by
    simp [apply, expire, hid, hcall]
  rw [hexpire]
  have hsettled : ∀ r, ((retire { c with now := max c.now due } id a none r).attempts a).settled =
      some r := by
    intro r
    rw [retire_settled, if_pos rfl]
    simp [hs]
  exact endsAlone_settled ha (hsettled _) hnow (deadline_le_horizon c k)

theorem endsAlone_attempt (h : c.Running) (hpc : (c.calls k).pc = .woken true) :
    EndsAlone mp c k (c.horizon k) := by
  have hready : c.enabled (.resume k) = true := by simp [enabled, ready, hpc]
  refine endsAlone_step (e := .resume k) hready rfl ?_
  have hrunning := running_apply h mp hready
  have heq : c.apply mp (.resume k) = c.attempt mp k := by simp [apply, resume, hpc]
  rw [heq] at hrunning ⊢
  obtain ⟨att, -, -, hcalls, hnow, -⟩ := attempt_parts mp c k
  have hawaits : ((c.attempt mp k).calls k).pc = .awaiting c.nextAttempt := by
    rw [hcalls, setPc_calls, if_pos rfl]
  have hdeadline : ((c.attempt mp k).calls k).deadline = (c.calls k).deadline := by
    rw [hcalls, setPc_deadline]
  cases hs : ((c.attempt mp k).attempts c.nextAttempt).settled with
  | none =>
    have hsame : (c.attempt mp k).horizon k = c.horizon k := by
      unfold horizon
      rw [hnow, hdeadline]
    rw [← hsame]
    exact endsAlone_unsettled hrunning hawaits hs
  | some r =>
    refine endsAlone_settled hawaits hs ?_ ?_
    · rw [hnow]
      exact le_of_lt (now_lt_horizon c k)
    · rw [hdeadline]
      exact deadline_le_horizon c k

/-- Every call that has begun comes to its end by itself, in time. -/
theorem Running.ends (h : c.Running) (hk : k < c.nextCall) (mp : Msgpack) :
    EndsAlone mp c k (c.horizon k) := by
  have hnow := le_of_lt (now_lt_horizon c k)
  cases hpc : (c.calls k).pc with
  | unused => exact absurd hpc (h.begun k hk)
  | done r => exact endsAlone_done hpc hnow
  | waiting due l => exact endsAlone_waiting due l hpc (h.armed.waiting k due l hpc) hnow
  | awaiting a =>
    cases hs : (c.attempts a).settled with
    | none => exact endsAlone_unsettled h hpc hs
    | some r => exact endsAlone_settled hpc hs hnow (deadline_le_horizon c k)
  | woken reconnected =>
    cases reconnected with
    | true => exact endsAlone_attempt h hpc
    | false =>
      refine endsAlone_step (e := .resume k) (by simp [enabled, ready, hpc]) rfl ?_
      refine endsAlone_done (r := .failure (.timeout (c.calls k).method (c.calls k).timeoutMs)) ?_ ?_
      · simp [apply, resume, hpc, setPc_calls]
      · simpa [apply, resume, hpc, setPc] using hnow

/-! ### Ends stay -/

theorem calls_attempt_ne {c : Calls} (mp : Msgpack) {k x : ℕ} (hx : x ≠ k) :
    (c.attempt mp k).calls x = c.calls x := by
  obtain ⟨att, hcalls⟩ : ∃ pc, (c.attempt mp k).calls = (c.setPc k pc).calls := by
    unfold attempt
    dsimp only
    split
    · split <;> exact ⟨_, rfl⟩
    · exact ⟨_, rfl⟩
  rw [hcalls, setPc_calls, if_neg hx]

/-- What has ended stays as it has ended. -/
theorem done_apply {c : Calls} (hi : c.Inv) (mp : Msgpack) {e : Event} (he : c.enabled e = true) {k : ℕ}
    {r : Settlement} (h : (c.calls k).pc = .done r) : ((c.apply mp e).calls k).pc = .done r := by
  have hborn : k < c.nextCall := by
    by_contra hge
    rw [hi.unused k (by omega)] at h
    contradiction
  cases e with
  | tick ms => exact h
  | connected => exact h
  | callWithOptions method params opts =>
    have hne : k ≠ c.nextCall := by omega
    change (((c.invoke method params opts).attempt mp c.nextCall).calls k).pc = .done r
    rw [calls_attempt_ne mp hne]
    have hold : (c.invoke method params opts).calls k = c.calls k := Function.update_of_ne hne _ _
    rw [hold]
    exact h
  | respond id v =>
    change ((c.respond id v).calls k).pc = .done r
    unfold respond
    split
    · exact h
    · exact h
  | expire a =>
    change ((c.expire a).calls k).pc = .done r
    unfold expire
    split
    · exact h
    · exact h
  | onTransportClose =>
    have hsame : ∀ (l : List (ℕ × ℕ)) (d : Calls), (rejectAll l d).calls = d.calls := by
      intro l
      induction l with
      | nil => exact fun _ => rfl
      | cons p rest ih => exact fun d => ih _
    change ((rejectAll c.pending.entries { c with connected := false }).calls k).pc = .done r
    rw [hsame]
    exact h
  | resume x =>
    have hne : k ≠ x := by
      rintro rfl
      change c.ready k = true at he
      unfold ready at he
      rw [h] at he
      contradiction
    change ((c.resume mp x).calls k).pc = .done r
    have hplain : ∀ pc, ((c.setPc x pc).calls k).pc = .done r := by
      intro pc
      rw [setPc_calls, if_neg hne]
      exact h
    cases hr : c.retries x with
    | true =>
      rw [resume_retries hr mp, calls_attempt_ne mp hne]
      exact h
    | false =>
      rcases resume_plain hr mp with heq | ⟨pc, heq⟩
      · rw [heq]
        exact h
      · rw [heq]
        exact hplain pc
  | giveUp x =>
    have hne : k ≠ x := by
      rintro rfl
      change c.givesUp k = true at he
      unfold givesUp at he
      rw [h] at he
      contradiction
    change ((c.setPc x _).calls k).pc = .done r
    rw [setPc_calls, if_neg hne]
    exact h
  | emitReconnect =>
    change (wakeOne (c.calls k)).pc = .done r
    unfold wakeOne
    rw [h]
    exact h
  | removeAllListeners =>
    change (unlistenOne (c.calls k)).pc = .done r
    unfold unlistenOne
    rw [h]
    exact h

end Calls

namespace Bridge

theorem done_step {host : Host} {s : Bridge} (hi : s.calls.Inv) {e : Event} (he : s.enabled e = true)
    {k : ℕ} {r : Settlement} (h : (s.calls.calls k).pc = .done r) :
    ((s.apply host e).calls.calls k).pc = .done r := by
  have hrun := calls_apply host he
  have hboth : (s.apply host e).calls.Inv ∧ ((s.apply host e).calls.calls k).pc = .done r := by
    refine hrun.invariant (P := fun c => c.Inv ∧ (c.calls k).pc = .done r) ?_ ?_
    · intro c hc
      have hsame : c = s.calls := hc
      rw [hsame]
      exact ⟨hi, h⟩
    · intro c ev d _ hc hstep _
      obtain ⟨hev, rfl⟩ := Machine.ofEnabled_step.mp hstep
      exact ⟨Calls.inv_apply hc.1 host.mp ev hev, Calls.done_apply hc.1 host.mp hev hc.2⟩
  exact hboth.2

end Bridge

end UnoQ.Client
