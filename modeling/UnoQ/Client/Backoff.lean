import UnoQ.Client.Closing
import UnoQ.Client.OneLink
import UnoQ.Lib.History
import UnoQ.Lib.Spacing

/-!
# Reconnect backoff

When a bridge dials. The delay doubles from one attempt to the next up to its maximum, and starts over
after a connection. The bridge is taken together with a record of what became of its connection, in
which each attempt has its number and its time.
-/

namespace UnoQ.Client
open Codec Transition

/-- The delay that `scheduleReconnect` sets after `n` attempts. -/
def ReconnectOptions.delay (options : ReconnectOptions) (n : ℕ) : ℤ :=
  setTimeoutDelay (min (options.baseDelayMs * 2 ^ n) options.maxDelayMs)

/-- A connection is lost, or an attempt is made and comes out, with the value of `reconnectAttempt`. -/
inductive LinkEvent
  | lost (time : ℤ)
  | dialed (attempt : ℕ) (time : ℤ)
  | refused (attempt : ℕ) (time : ℤ)
  | opened (time : ℤ)

def LinkEvent.time : LinkEvent → ℤ
  | .lost time | .dialed _ time | .refused _ time | .opened time => time

def LinkEvent.dialTime : LinkEvent → Option ℤ
  | .dialed _ time => some time
  | _ => none

structure Redials where
  bridge : Bridge
  log : List LinkEvent

namespace Calls

/-! ### The clock -/

theorem rejectAll_now (l : List (ℕ × ℕ)) : ∀ c : Calls, (rejectAll l c).now = c.now := by
  induction l with
  | nil => exact fun _ => rfl
  | cons p rest ih =>
    intro c
    rw [rejectAll, ih]
    rfl

theorem attempt_now (mp : Msgpack) (c : Calls) (k : ℕ) : (c.attempt mp k).now = c.now := by
  unfold attempt
  dsimp only
  split
  · split <;> rfl
  · rfl

theorem now_apply (mp : Msgpack) (c : Calls) (e : Event) : c.now ≤ (c.apply mp e).now := by
  cases e with
  | tick ms =>
    change c.now ≤ c.now + ms
    omega
  | connected => exact le_refl _
  | callWithOptions method params opts => exact ((c.invoke method params opts).attempt_now mp _).ge
  | respond msgid r =>
    change c.now ≤ (c.respond msgid r).now
    unfold respond
    split <;> exact le_refl _
  | expire a =>
    change c.now ≤ (c.expire a).now
    unfold expire
    split <;> exact le_refl _
  | onTransportClose => exact (rejectAll_now c.pending.entries { c with connected := false }).ge
  | resume k =>
    change c.now ≤ (c.resume mp k).now
    unfold resume
    split
    · split
      · exact le_refl _
      · exact le_refl _
      · unfold caught
        dsimp only
        split
        · exact le_refl _
        · split <;> exact le_refl _
    · exact (c.attempt_now mp k).ge
    · exact le_refl _
    · exact le_refl _
  | giveUp k => exact le_refl _
  | emitReconnect => exact le_refl _
  | removeAllListeners => exact le_refl _

end Calls

namespace Bridge

theorem now_le_apply (host : Host) {s : Bridge} {e : Event} (he : s.enabled e = true) :
    s.calls.now ≤ (s.apply host e).calls.now := by
  refine (calls_apply host he).invariant (P := fun c => s.calls.now ≤ c.now) ?_ ?_
  · rintro c rfl
    exact le_refl _
  · intro c e d _ hle hs _
    obtain ⟨-, rfl⟩ := Machine.ofEnabled_step.mp hs
    exact hle.trans (Calls.now_apply host.mp c e)

end Bridge

namespace Redials
open Bridge

def initial : Redials := ⟨Bridge.initial, []⟩

/-- What an event tells of the connection. -/
def tells (s : Bridge) : Event → List LinkEvent
  | .closed _ => [.lost s.calls.now]
  | .reconnectTimer =>
    if s.service.link.closedByUs then [] else [.dialed s.service.link.reconnectAttempt s.calls.now]
  | .refused _ => [.refused s.service.link.reconnectAttempt s.calls.now]
  | .opened _ => [.opened s.calls.now]
  | _ => []

def step (host : Host) (r : Redials) (e : Event) : Option Redials :=
  ((Bridge.machine host).step r.bridge e).map fun s => ⟨s, r.log ++ tells r.bridge e⟩

def machine (host : Host) : Machine Redials Event where
  init r := r = initial
  step := step host

/-- What comes before an event of the connection, and how long before. -/
def Due (options : ReconnectOptions) (past : List LinkEvent) : LinkEvent → Prop
  | .dialed n time =>
    match past.getLast? with
    | some (.lost before) => n = 1 ∧ before + options.delay 0 ≤ time
    | some (.refused m before) => n = m + 1 ∧ before + options.delay m ≤ time
    | _ => False
  | .refused n time => ∃ before, past.getLast? = some (.dialed n before) ∧ before ≤ time
  | .opened time => ∃ n before, past.getLast? = some (.dialed n before) ∧ before ≤ time
  | .lost time => ∀ e, past.getLast? = some e → ∃ before, e = .opened before ∧ before ≤ time

/-! ### Distances in the record -/

variable {options : ReconnectOptions} {log : List LinkEvent}

def dialTimes (log : List LinkEvent) : List ℤ := log.filterMap LinkEvent.dialTime

theorem delay_pos (options : ReconnectOptions) (n : ℕ) : 1 ≤ options.delay n := by
  unfold ReconnectOptions.delay setTimeoutDelay
  split
  next h => exact h.1
  · exact le_refl 1

/-- With delays that a timer can hold, the first one is the shortest. -/
theorem baseDelayMs_le_delay (hbase : 1 ≤ options.baseDelayMs)
    (hmax : options.baseDelayMs ≤ options.maxDelayMs) (htimer : options.maxDelayMs ≤ 0x7fffffff) (n : ℕ) :
    options.baseDelayMs ≤ options.delay n := by
  have hpow : (1 : ℤ) ≤ 2 ^ n := one_le_pow₀ (by norm_num)
  have hgrown : options.baseDelayMs ≤ options.baseDelayMs * 2 ^ n :=
    le_mul_of_one_le_right (by omega) hpow
  have hle : options.baseDelayMs ≤ min (options.baseDelayMs * 2 ^ n) options.maxDelayMs :=
    le_min hgrown hmax
  have hcapped := min_le_right (options.baseDelayMs * 2 ^ n) options.maxDelayMs
  unfold ReconnectOptions.delay setTimeoutDelay
  rw [if_pos ⟨hbase.trans hle, hcapped.trans htimer⟩]
  exact hle

/-- An attempt keeps its distance to what was before it. -/
theorem Due.dialed {d : ℤ} (hd : ∀ n, d ≤ options.delay n) {n : ℕ} {time : ℤ}
    (h : Due options log (.dialed n time)) {before : LinkEvent} (hlast : log.getLast? = some before) :
    before.time + d ≤ time := by
  unfold Due at h
  rw [hlast] at h
  cases before with
  | lost u =>
    have hdelay := hd 0
    have hle : u + options.delay 0 ≤ time := h.2
    change u + d ≤ time
    omega
  | refused m u =>
    have hdelay := hd m
    have hle : u + options.delay m ≤ time := h.2
    change u + d ≤ time
    omega
  | dialed | opened => contradiction

/-- An event comes no earlier than the one before it. -/
theorem Due.le {e before : LinkEvent} (h : Due options log e) (hlast : log.getLast? = some before) :
    before.time ≤ e.time := by
  cases e with
  | dialed n time =>
    have hdistance := Due.dialed (delay_pos options) h hlast
    change before.time ≤ time
    omega
  | refused n time =>
    obtain ⟨u, hu, hle⟩ := h
    cases hlast.symm.trans hu
    exact hle
  | opened time =>
    obtain ⟨n, u, hu, hle⟩ := h
    cases hlast.symm.trans hu
    exact hle
  | lost time =>
    obtain ⟨u, rfl, hle⟩ := h before hlast
    exact hle

theorem le_last (h : History.Causal (Due options) log) :
    ∀ last, log.getLast? = some last → ∀ e ∈ log, e.time ≤ last.time := by
  induction log using List.reverseRecOn with
  | nil =>
    intro last _ e he
    contradiction
  | append_singleton past new ih =>
    obtain ⟨hpast, hnew⟩ := History.causal_snoc.mp h
    intro last hlast e he
    rw [List.getLast?_concat] at hlast
    cases hlast
    rcases List.mem_append.mp he with hold | hself
    · have hne : past ≠ [] := List.ne_nil_of_mem hold
      have hbefore := List.getLast?_eq_getLast_of_ne_nil hne
      exact (ih hpast _ hbefore e hold).trans (hnew.le hbefore)
    · rw [List.mem_singleton.mp hself]

/-- If no delay is shorter than `d`, the attempts of all outages keep that distance. -/
theorem dialTimes_spaced {d : ℤ} (hd : ∀ n, d ≤ options.delay n)
    (h : History.Causal (Due options) log) : Spacing.Spaced d (dialTimes log) := by
  induction log using List.reverseRecOn with
  | nil => exact List.Pairwise.nil
  | append_singleton past new ih =>
    obtain ⟨hpast, hnew⟩ := History.causal_snoc.mp h
    unfold dialTimes
    rw [List.filterMap_append]
    cases new with
    | lost | refused | opened =>
      rw [List.filterMap_cons_none rfl, List.filterMap_nil, List.append_nil]
      exact ih hpast
    | dialed n time =>
      refine Spacing.spaced_snoc (ih hpast) fun x hx => ?_
      obtain ⟨e, he, hex⟩ := List.mem_filterMap.mp hx
      have hne : past ≠ [] := List.ne_nil_of_mem he
      have hbefore := List.getLast?_eq_getLast_of_ne_nil hne
      have hle := le_last hpast _ hbefore e he
      have hxe : x = e.time := by
        cases e with
        | dialed m u =>
          cases hex
          rfl
        | lost | refused | opened => contradiction
      have hdistance := Due.dialed hd hnew hbefore
      rw [hxe]
      omega

/-! ### The invariant -/

/-- No connection, attempt or timer, though `close()` was not called. -/
structure GivenUp (l : Link) : Prop where
  vacant : ∀ c, ¬ l.IsOpen c
  dialing : l.dialing = []
  timer : l.reconnectTimer = none
  closed : l.closedByUs = false

/-- The timer that is due after this event of the connection, at the attempt with this number. -/
def Awaits (options : ReconnectOptions) (attempt : ℕ) (due : ℤ) : LinkEvent → Prop
  | .lost time => attempt = 1 ∧ time + options.delay 0 ≤ due
  | .refused n time => attempt = n + 1 ∧ time + options.delay n ≤ due
  | _ => False

structure Paced (options : ReconnectOptions) (r : Redials) : Prop where
  causal : History.Causal (Due options) r.log
  past : ∀ e, r.log.getLast? = some e → e.time ≤ r.bridge.calls.now
  armed : ∀ due, r.bridge.service.link.reconnectTimer = some due → ∃ last,
    r.log.getLast? = some last ∧ Awaits options r.bridge.service.link.reconnectAttempt due last
  dialing : r.bridge.service.link.dialing ≠ [] →
    ∃ time, r.log.getLast? = some (.dialed r.bridge.service.link.reconnectAttempt time)
  up : ∀ c, r.bridge.service.link.IsOpen c →
    (∀ e, r.log.getLast? = some e → ∃ time, e = .opened time) ∧
      (r.bridge.service.link.reconnectAttempt = 0 ∨ ∃ x, r.bridge.replays x = .dialed)
  disabled : options.enabled = false → r.bridge.service.link.reconnectTimer = none ∧
    r.bridge.service.link.dialing = [] ∧ dialTimes r.log = [] ∧ ∀ x, r.bridge.replays x = .idle
  given : options.enabled = true → GivenUp r.bridge.service.link →
    ∃ time, r.log.getLast? = some (.refused r.bridge.service.link.reconnectAttempt time)

theorem paced_initial (options : ReconnectOptions) : initial.Paced options where
  causal := History.causal_nil _
  past := by simp [initial]
  armed := by simp [initial, Bridge.initial, Service.initial, Link.initial]
  dialing := by simp [initial, Bridge.initial, Service.initial, Link.initial]
  up c _ := ⟨by simp [initial], .inl rfl⟩
  disabled _ := ⟨rfl, rfl, rfl, fun _ => rfl⟩
  given _ hnone := absurd rfl (hnone.vacant 0)

variable {s t : Bridge}

/-- Nothing happens to the connection. A timer may be cleared by `close()`, a connection end to be
closed. -/
theorem Paced.frame (h : Paced options ⟨s, log⟩) (hnow : s.calls.now ≤ t.calls.now)
    (htimer : (t.service.link.reconnectTimer = none ∧ t.service.link.closedByUs = true) ∨
      (t.service.link.reconnectTimer = s.service.link.reconnectTimer ∧
        t.service.link.closedByUs = s.service.link.closedByUs))
    (hdialing : t.service.link.dialing = s.service.link.dialing)
    (hattempt : t.service.link.reconnectAttempt = s.service.link.reconnectAttempt)
    (hopen : ∀ c, t.service.link.IsOpen c ↔ s.service.link.IsOpen c)
    (hreplays : ∀ x, s.replays x = .dialed → t.replays x = .dialed)
    (hidle : (∀ x, s.replays x = .idle) → ∀ x, t.replays x = .idle) : Paced options ⟨t, log⟩ where
  causal := h.causal
  past e he := (h.past e he).trans hnow
  armed due hdue := by
    rcases htimer with ⟨hnone, -⟩ | ⟨hsame, -⟩
    · rw [hnone] at hdue
      contradiction
    · rw [hattempt]
      exact h.armed due (hsame ▸ hdue)
  dialing hd := by
    rw [hattempt]
    exact h.dialing (hdialing ▸ hd)
  up c hc := by
    obtain ⟨hlast, hfresh⟩ := h.up c ((hopen c).mp hc)
    refine ⟨hlast, ?_⟩
    rw [hattempt]
    rcases hfresh with hzero | ⟨x, hx⟩
    · exact .inl hzero
    · exact .inr ⟨x, hreplays x hx⟩
  disabled hoff := by
    obtain ⟨hnone, hnil, hlog, hall⟩ := h.disabled hoff
    refine ⟨?_, hdialing.trans hnil, hlog, hidle hall⟩
    rcases htimer with ⟨hclear, -⟩ | ⟨hsame, -⟩
    · exact hclear
    · exact hsame.trans hnone
  given hon hgone := by
    rcases htimer with ⟨-, hclosed⟩ | ⟨hsame, hclosed⟩
    · exact absurd hgone.closed (by simp [hclosed])
    · rw [hattempt]
      exact h.given hon ⟨fun c hc => hgone.vacant c ((hopen c).mpr hc), hdialing.symm.trans hgone.dialing,
        hsame.symm.trans hgone.timer, hclosed.symm.trans hgone.closed⟩

theorem Paced.samePhase (h : Paced options ⟨s, log⟩) (hp : s.SamePhase t)
    (hnow : s.calls.now ≤ t.calls.now) : Paced options ⟨t, log⟩ := by
  have hlink := hp.link_eq
  refine h.frame hnow (.inr ⟨?_, ?_⟩) ?_ ?_ (fun c => ?_) (fun x hx => ?_) fun hall x => ?_
  · rw [hlink]
  · rw [hlink]
  · rw [hlink]
  · rw [hlink]
  · rw [hlink]
    exact Iff.rfl
  · rw [hp.replays]
    exact hx
  · rw [hp.replays]
    exact hall x

theorem close_isOpen (l : Link) (c : ℕ) : l.close.IsOpen c ↔ l.IsOpen c := by
  unfold Link.IsOpen
  rw [(Link.close_conns l c).1]

theorem Paced.closeTransport (h : Paced options ⟨s, log⟩) (x : ℕ) :
    Paced options ⟨s.closeTransport x, log⟩ := by
  refine h.frame (le_refl _) (.inr ⟨?_, ?_⟩) ?_ ?_ (close_isOpen _) (fun _ hx => hx) fun hall => hall
  · rw [closeTransport_link, Link.close_eq]
  · rw [closeTransport_link, Link.close_eq]
  · rw [closeTransport_link, Link.close_eq]
  · rw [closeTransport_link, Link.close_eq]

theorem Paced.shutting (h : Paced options ⟨s, log⟩) : Paced options ⟨s.shutting, log⟩ :=
  h.frame (le_refl _) (.inl ⟨rfl, rfl⟩) rfl rfl (fun _ => Iff.rfl) (fun _ hx => hx) fun hall => hall

/-! ### What happens to the connection -/

variable {host : Host}

/-- The next attempt, if there is one, is due after its delay. -/
theorem scheduleReconnect_delay {l : Link} {now : ℤ} (htimer : l.reconnectTimer = none) {due : ℤ}
    (h : (l.scheduleReconnect options now).reconnectTimer = some due) :
    (l.scheduleReconnect options now).reconnectAttempt = l.reconnectAttempt + 1 ∧
      due = now + options.delay l.reconnectAttempt := by
  unfold Link.scheduleReconnect at h ⊢
  split
  next hno =>
    rw [if_pos hno, htimer] at h
    contradiction
  next hyes =>
    rw [if_neg hyes] at h
    cases h
    exact ⟨rfl, rfl⟩

theorem paced_snoc {new : LinkEvent} (h : Paced options ⟨s, log⟩) (hdue : Due options log new) :
    History.Causal (Due options) (log ++ [new]) := History.causal_snoc.mpr ⟨h.causal, hdue⟩

theorem Paced.closed (h : Paced host.options ⟨s, log⟩) (hone : s.service.link.Single)
    (hlone : s.service.link.Lone) (hshut : s.Shutting) {c : ℕ} (hidle : s.idle = true)
    (hc : s.service.link.IsOpen c) :
    Paced host.options ⟨s.onTransportClose host c, log ++ [.lost s.calls.now]⟩ := by
  obtain ⟨hdialing, htimer⟩ := hlone.alone c hc
  obtain ⟨hlast, hfresh⟩ := h.up c hc
  have hzero : s.service.link.reconnectAttempt = 0 := by
    rcases hfresh with hzero | ⟨x, hx⟩
    · exact hzero
    · exact absurd hx (hshut.not_dialed hidle x)
  have hnow : (s.onTransportClose host c).calls.now = s.calls.now :=
    Calls.rejectAll_now s.calls.pending.entries { s.calls with connected := false }
  have hlink : (s.onTransportClose host c).service.link =
      s.service.link.closed host.options s.calls.now c := rfl
  have hbase : ({ s.service.link.setConn c { s.service.link.conns c with status := .closed } with
      socket := if s.service.link.socket = some c then none else s.service.link.socket } : Link).reconnectTimer =
        none := htimer
  refine ⟨paced_snoc h fun e he => ?_, fun e he => ?_, fun due hdue => ?_, fun hd => ?_, fun x hx => ?_,
    fun hoff => ?_, fun hon hgone => ?_⟩
  · obtain ⟨time, rfl⟩ := hlast e he
    exact ⟨time, rfl, h.past _ he⟩
  · rw [List.getLast?_concat] at he
    cases he
    exact hnow.ge
  · refine ⟨_, List.getLast?_concat, ?_⟩
    change (s.onTransportClose host c).service.link.reconnectTimer = some due at hdue
    change Awaits host.options (s.onTransportClose host c).service.link.reconnectAttempt due _
    rw [hlink] at hdue ⊢
    unfold Link.closed at hdue ⊢
    dsimp only at hdue ⊢
    split at hdue
    next hon =>
      rw [if_pos hon]
      obtain ⟨hattempt, hdelay⟩ := scheduleReconnect_delay hbase hdue
      rw [hattempt, hdelay]
      change s.service.link.reconnectAttempt + 1 = 1 ∧
        s.calls.now + _ ≤ s.calls.now + host.options.delay s.service.link.reconnectAttempt
      rw [hzero]
      exact ⟨rfl, le_refl _⟩
    next =>
      rw [hbase] at hdue
      contradiction
  · change (s.onTransportClose host c).service.link.dialing ≠ [] at hd
    rw [hlink, Link.closed_eq] at hd
    exact absurd hdialing hd
  · exact absurd hx (Link.noneOpen_closed hone host.options s.calls.now hc x)
  · obtain ⟨-, -, hlog, hall⟩ := h.disabled hoff
    refine ⟨?_, ?_, ?_, hall⟩
    · change (s.service.link.closed host.options s.calls.now c).reconnectTimer = none
      unfold Link.closed
      dsimp only
      rw [if_neg (by simp [hoff])]
      exact htimer
    · change (s.service.link.closed host.options s.calls.now c).dialing = []
      rw [Link.closed_eq]
      exact hdialing
    · unfold dialTimes at hlog ⊢
      rw [List.filterMap_append, hlog]
      rfl
  · -- With reconnecting on, the timer is armed.
    have hclosed : (s.service.link.closed host.options s.calls.now c).closedByUs = false := hgone.closed
    rw [Link.closed_eq] at hclosed
    refine absurd hgone.timer ?_
    change (s.service.link.closed host.options s.calls.now c).reconnectTimer ≠ none
    unfold Link.closed
    dsimp only
    rw [if_pos ⟨hon, hclosed⟩]
    exact scheduleReconnect_armed _ _ _ hclosed

theorem Paced.reconnectTimer (h : Paced host.options ⟨s, log⟩) (hlone : s.service.link.Lone) {due : ℤ}
    (htimer : s.service.link.reconnectTimer = some due) (hle : due ≤ s.calls.now) :
    Paced host.options ⟨s.doReconnect, log ++ tells s .reconnectTimer⟩ := by
  have hnone : ∀ c, ¬ s.service.link.IsOpen c := by
    intro c hc
    rw [(hlone.alone c hc).2] at htimer
    contradiction
  unfold tells
  by_cases hclosed : s.service.link.closedByUs = true
  · rw [if_pos hclosed, List.append_nil]
    refine h.frame (le_refl _) (.inl ⟨rfl, hclosed⟩) ?_ rfl (fun c => Iff.rfl) (fun _ hx => hx)
      fun hall => hall
    change (if s.service.link.closedByUs then _ else _) = _
    rw [if_pos hclosed]
  · rw [if_neg hclosed]
    obtain ⟨last, hlast, hawaits⟩ := h.armed due htimer
    have hdue : Due host.options log (.dialed s.service.link.reconnectAttempt s.calls.now) := by
      unfold Due
      rw [hlast]
      cases last with
      | lost time => exact ⟨hawaits.1, hawaits.2.trans hle⟩
      | refused n time => exact ⟨hawaits.1, hawaits.2.trans hle⟩
      | dialed | opened => contradiction
    refine ⟨paced_snoc h hdue, fun e he => ?_, fun _ hd => by contradiction, fun _ => ?_,
      fun c hc => absurd hc (hnone c), fun hoff => ?_, fun _ hgone => ?_⟩
    · rw [List.getLast?_concat] at he
      cases he
      exact le_refl _
    · exact ⟨_, List.getLast?_concat⟩
    · have hoff' := (h.disabled hoff).1
      change s.service.link.reconnectTimer = none at hoff'
      rw [htimer] at hoff'
      contradiction
    · have hd : (if s.service.link.closedByUs = true then _ else _ :: _) = [] := hgone.dialing
      rw [if_neg hclosed] at hd
      contradiction

theorem Paced.refused (h : Paced host.options ⟨s, log⟩) (hlone : s.service.link.Lone) {r : ℕ}
    (hr : r ∈ s.service.link.dialing) : Paced host.options ⟨s.refused host r,
      log ++ [.refused s.service.link.reconnectAttempt s.calls.now]⟩ := by
  have hne : s.service.link.dialing ≠ [] := List.ne_nil_of_mem hr
  have htimer := hlone.unarmed hr
  have hnone := hlone.noneOpen hr
  obtain ⟨time, hlast⟩ := h.dialing hne
  have hlink : (s.refused host r).service.link =
      s.service.link.refused host.options s.calls.now r s.errorListener := rfl
  refine ⟨paced_snoc h ⟨time, hlast, h.past _ hlast⟩, fun e he => ?_, fun due hdue => ?_, fun hd => ?_,
    fun x hx => ?_, fun hoff => ?_, fun _ hgone => ⟨s.calls.now, ?_⟩⟩
  · rw [List.getLast?_concat] at he
    cases he
    exact le_refl _
  · refine ⟨_, List.getLast?_concat, ?_⟩
    change (s.refused host r).service.link.reconnectTimer = some due at hdue
    change Awaits host.options (s.refused host r).service.link.reconnectAttempt due _
    rw [hlink] at hdue ⊢
    unfold Link.refused Link.caught at hdue ⊢
    split at hdue
    next hon =>
      rw [if_pos hon]
      obtain ⟨hattempt, hdelay⟩ := scheduleReconnect_delay
        (l := { s.service.link with dialing := s.service.link.dialing.erase r }) htimer hdue
      rw [hattempt, hdelay]
      exact ⟨rfl, le_refl _⟩
    next =>
      change s.service.link.reconnectTimer = some due at hdue
      rw [htimer] at hdue
      contradiction
  · change (s.refused host r).service.link.dialing ≠ [] at hd
    rw [hlink, Link.refused_eq] at hd
    exact absurd (hlone.erase hr) hd
  · change (s.refused host r).service.link.IsOpen x at hx
    rw [hlink, Link.refused_eq] at hx
    exact absurd hx (hnone x)
  · exact absurd (h.disabled hoff).2.1 hne
  · -- Nobody heard of it, so nothing was counted.
    rw [List.getLast?_concat]
    change _ = some (LinkEvent.refused (s.refused host r).service.link.reconnectAttempt _)
    have hgone' : GivenUp (s.service.link.refused host.options s.calls.now r s.errorListener) := hgone
    rw [hlink]
    unfold Link.refused Link.caught at hgone' ⊢
    split at hgone'
    next hheard => exact absurd hgone'.timer (scheduleReconnect_armed _ _ _ hheard.2)
    next hunheard =>
      rw [if_neg hunheard]

theorem Paced.opened (h : Paced options ⟨s, log⟩) (hlone : s.service.link.Lone) {r : ℕ}
    (hr : r ∈ s.service.link.dialing) :
    Paced options ⟨s.opened r, log ++ [.opened s.calls.now]⟩ := by
  have hne : s.service.link.dialing ≠ [] := List.ne_nil_of_mem hr
  have htimer := hlone.unarmed hr
  obtain ⟨time, hlast⟩ := h.dialing hne
  refine ⟨paced_snoc h ⟨_, time, hlast, h.past _ hlast⟩, fun e he => ?_, fun due hdue => ?_,
    fun hd => absurd (hlone.erase hr) hd, fun x hx => ?_, fun hoff => ?_, fun _ hgone => ?_⟩
  · rw [List.getLast?_concat] at he
    cases he
    exact le_refl _
  · change s.service.link.reconnectTimer = some due at hdue
    rw [htimer] at hdue
    contradiction
  · refine ⟨fun e he => ?_, .inr ⟨r, ?_⟩⟩
    · rw [List.getLast?_concat] at he
      cases he
      exact ⟨_, rfl⟩
    · exact (setReplay_replays _ r r _).trans (if_pos rfl)
  · exact absurd (h.disabled hoff).2.1 hne
  · have hnew : (s.service.link.opened r).IsOpen s.service.link.nextConn := by
      unfold Link.IsOpen
      rw [Link.opened_conns, if_pos rfl]
    exact absurd hnew (hgone.vacant _)

theorem Paced.setReplay (h : Paced options ⟨s, log⟩) {r : ℕ} (hbegun : s.replays r ≠ .idle)
    (hr : s.replays r ≠ .dialed) (replay : Replay) : Paced options ⟨s.setReplay r replay, log⟩ := by
  refine h.frame (le_refl _) (.inr ⟨rfl, rfl⟩) rfl rfl (fun _ => Iff.rfl) (fun x hx => ?_)
    fun hall => absurd (hall r) hbegun
  have hxr : x ≠ r := by
    rintro rfl
    exact hr hx
  rw [setReplay_replays, if_neg hxr]
  exact hx

/-- A `catch` that comes to schedule an attempt goes on from the refusal of the last one. -/
theorem Paced.caught (h : Paced host.options ⟨s, log⟩) (hi : s.service.link.Inv) {r : ℕ}
    (hr : s.replays r = .threw) (hg : s.service.Vacant (.caught s.calls.now s.errorListener)) :
    Paced host.options ⟨(s.caught host).setReplay r .idle, log⟩ := by
  have hquiet := h.setReplay (r := r) (by simp [hr]) (by simp [hr]) .idle
  have hon : host.options.enabled = true := by
    by_contra hoff
    have hidle := (h.disabled (Bool.not_eq_true _ ▸ hoff)).2.2.2 r
    change s.replays r = .idle at hidle
    rw [hr] at hidle
    contradiction
  by_cases hheard : s.errorListener = true ∧ s.service.link.closedByUs = false
  · by_cases htimer : s.service.link.reconnectTimer = none
    · obtain ⟨hnone, hdialing⟩ := hg hheard.1 hheard.2 htimer
      have hnone := hi.noneOpen_iff.mp hnone
      have hgone : GivenUp s.service.link := ⟨hnone, hdialing, htimer, hheard.2⟩
      obtain ⟨time, hlast⟩ := h.given hon hgone
      have hlink : (s.caught host).service.link = s.service.link.scheduleReconnect host.options s.calls.now :=
        if_pos hheard
      refine ⟨h.causal, h.past, fun due hdue => ⟨_, hlast, ?_⟩, fun hd => ?_, fun c hc => ?_,
        fun hoff => ?_, fun _ hgone' => ?_⟩
      · change (s.caught host).service.link.reconnectTimer = some due at hdue
        change Awaits host.options (s.caught host).service.link.reconnectAttempt due _
        rw [hlink] at hdue ⊢
        obtain ⟨hattempt, hdelay⟩ := scheduleReconnect_delay htimer hdue
        rw [hattempt, hdelay]
        have hpast : time ≤ s.calls.now := h.past _ hlast
        exact ⟨rfl, Int.add_le_add_right hpast _⟩
      · change (s.caught host).service.link.dialing ≠ [] at hd
        rw [hlink, Link.scheduleReconnect_eq] at hd
        exact absurd hdialing hd
      · change (s.caught host).service.link.IsOpen c at hc
        rw [hlink, Link.scheduleReconnect_eq] at hc
        exact absurd hc (hnone c)
      · rw [hon] at hoff
        contradiction
      · have htimer' : (s.caught host).service.link.reconnectTimer = none := hgone'.timer
        rw [hlink] at htimer'
        exact absurd htimer' (scheduleReconnect_armed _ _ _ hheard.2)
    · have hsame : s.caught host = s := by
        unfold Bridge.caught
        rw [Link.caught_of_armed host.options s.calls.now htimer]
      rw [hsame]
      exact hquiet
  · have hsame : s.caught host = s := by
      unfold Bridge.caught Link.caught
      rw [if_neg hheard]
    rw [hsame]
    exact hquiet

/-- `doReconnect` has its connection, and the next outage begins with the first delay. -/
theorem Paced.connected (h : Paced options ⟨s, log⟩) (hi : s.service.link.Inv)
    (hlone : s.service.link.Lone) (hshut : s.Shutting) {r : ℕ} (hr : s.replays r = .dialed)
    (replay : Replay) : Paced options ⟨s.connected.setReplay r replay, log⟩ := by
  obtain ⟨c, hsocket, -⟩ := hshut.dialed r hr
  have hopen := hi.socket c hsocket
  obtain ⟨hdialing, htimer⟩ := hlone.alone c hopen
  refine ⟨h.causal, h.past, fun due hdue => ?_, fun hd => absurd hdialing hd, fun x hx => ?_,
    fun hoff => ?_, fun _ hgone => absurd hopen (hgone.vacant c)⟩
  · change s.service.link.reconnectTimer = some due at hdue
    rw [htimer] at hdue
    contradiction
  · exact ⟨(h.up x hx).1, .inl rfl⟩
  · have hidle := (h.disabled hoff).2.2.2 r
    change s.replays r = .idle at hidle
    rw [hr] at hidle
    contradiction

/-! ### Steps and runs -/

theorem paced_apply (h : Paced host.options ⟨s, log⟩) (hi : s.service.link.Inv)
    (hone : s.service.link.Single) (hlone : s.service.link.Lone) (hshut : s.Shutting) {e : Event}
    (he : s.enabled e = true) (hg : CatchesVacant s e (s.apply host e)) : Paced host.options ⟨s.apply host e, log ++ tells s e⟩ := by
  have hnow := now_le_apply host he
  have hsilent : ∀ u : Bridge, tells s e = [] → Paced host.options ⟨u, log⟩ →
      u.SamePhase (s.apply host e) → u.calls.now = s.calls.now →
      Paced host.options ⟨s.apply host e, log ++ tells s e⟩ := by
    intro u htells hu hsame hclock
    rw [htells, List.append_nil]
    exact hu.samePhase hsame (hclock ▸ hnow)
  by_cases hphase : e.phase = false
  · refine hsilent s ?_ h (samePhase_apply host s hphase) rfl
    cases e <;> first | rfl | contradiction
  · cases e with
    | close =>
      obtain ⟨u, hm, hsame⟩ := moves_close host s
      cases hm with
      | stay _ hne => contradiction
      | reset k hc =>
        have hreset : Paced host.options ⟨s.shutting.setClosing s.nextClosing (.resetting k), log⟩ :=
          h.shutting.frame (le_refl _) (.inr ⟨rfl, rfl⟩) rfl rfl (fun _ => Iff.rfl) (fun _ hx => hx)
            fun hall => hall
        exact hsilent _ rfl hreset hsame rfl
      | shut hc => exact hsilent _ rfl (h.shutting.closeTransport _) hsame rfl
    | broken c d =>
      refine hsilent _ rfl ?_ (samePhase_refl _) rfl
      refine h.frame (le_refl _) (.inr ⟨rfl, rfl⟩) rfl rfl (fun x => ?_) (fun _ hx => hx) fun hall => hall
      change (s.service.link.broken c d).IsOpen x ↔ s.service.link.IsOpen x
      unfold Link.IsOpen
      rw [Link.broken_status]
    | closed c =>
      have hc : s.idle = true ∧ s.service.link.IsOpen c := by
        simpa [enabled, Link.IsOpen] using he
      exact h.closed hone hlone hshut hc.1 hc.2
    | opened r =>
      have hr : s.idle = true ∧ r ∈ s.service.link.dialing := by simpa [enabled] using he
      exact h.opened hlone hr.2
    | refused r =>
      have hr : s.idle = true ∧ r ∈ s.service.link.dialing := by simpa [enabled] using he
      exact h.refused hlone hr.2
    | reconnectTimer =>
      cases htimer : s.service.link.reconnectTimer with
      | none => simp [enabled, htimer] at he
      | some due =>
        have hle : s.idle = true ∧ due ≤ s.calls.now := by simpa [enabled, htimer] using he
        exact h.reconnectTimer hlone htimer hle.2
    | resumeReplay r =>
      obtain ⟨u, hm, hsame⟩ := moves_resumeReplay host s r
      cases hm with
      | stay => exact hsilent s rfl h hsame rfl
      | connected _ replay hr hne =>
        exact hsilent _ rfl (h.connected hi hlone hshut hr replay) hsame rfl
      | replay _ replay hr hd hne => exact hsilent _ rfl (h.setReplay hr hd replay) hsame rfl
      | caught _ hr => exact hsilent _ rfl (h.caught hi hr (hg hr)) hsame rfl
    | resumeClose x =>
      obtain ⟨u, hm, hsame⟩ := moves_resumeClose host he
      cases hm with
      | stay => exact hsilent s rfl h hsame rfl
      | tearDown _ k hx => exact hsilent _ rfl (h.closeTransport x) hsame rfl
      | finish _ conn hx hc =>
        have hrest : Paced host.options ⟨s.removeAllListeners.setClosing x .idle, log⟩ :=
          h.frame (le_refl _) (.inr ⟨rfl, rfl⟩) rfl rfl (fun _ => Iff.rfl) (fun _ hx => hx) fun hall => hall
        exact hsilent _ rfl hrest hsame rfl
    | _ => exact absurd rfl hphase

/-- The condition of the bridge, on its record's steps. -/
def CatchesVacant : Guard Redials Event := fun r e t => Bridge.CatchesVacant r.bridge e t.bridge

instance (r : Redials) (e : Event) (t : Redials) : Decidable (CatchesVacant r e t) :=
  inferInstanceAs (Decidable (Bridge.CatchesVacant r.bridge e t.bridge))

theorem bridge_reach {r : Redials} (h : (machine host).Reach CatchesVacant r) :
    (Bridge.machine host).Reach Bridge.CatchesVacant r.bridge := by
  refine h.simulation Redials.bridge (fun u hu => ?_) fun u e v _ ih hs hg => ?_
  · have hinit : u = initial := hu
    rw [hinit]
    rfl
  · obtain ⟨s, hs', rfl⟩ := Option.map_eq_some_iff.mp hs
    exact ih.step hs' hg

theorem paced_reach {r : Redials} (h : (machine host).Reach CatchesVacant r) : r.Paced host.options := by
  refine h.invariant (P := Paced host.options) (fun u hu => ?_) fun u e v hr hu hs hg => ?_
  · have hinit : u = initial := hu
    rw [hinit]
    exact paced_initial _
  · obtain ⟨s, hs', rfl⟩ := Option.map_eq_some_iff.mp hs
    obtain ⟨he, rfl⟩ := Machine.ofEnabled_step.mp hs'
    have hb := bridge_reach hr
    obtain ⟨hone, hlone⟩ := lone_reach hb
    exact paced_apply hu (service_inv hb).link hone hlone (shutting_reach hb) he hg

/-- In runs that keep the bridge on one link, the first attempt of an outage comes no earlier than the
first delay after the drop, and each further one no earlier than its own delay after the refusal of the
one before it. If no delay is shorter than `d`, no interval holds more attempts than steps of `d`, and
one more. A bridge that is not to reconnect makes none. -/
theorem backoff_reach {r : Redials} (h : (machine host).Reach CatchesVacant r) :
    History.Causal (Due host.options) r.log ∧
      (host.options.enabled = false → dialTimes r.log = []) ∧
      ∀ d, 0 ≤ d → (∀ n, d ≤ host.options.delay n) → ∀ a b, a ≤ b →
        (((dialTimes r.log).filter fun time => a ≤ time ∧ time ≤ b).length : ℤ) * d ≤ d + (b - a) := by
  have hpaced := paced_reach h
  refine ⟨hpaced.causal, fun hoff => (hpaced.disabled hoff).2.2.1, ?_⟩
  intro d hpos hd a b hab
  exact (dialTimes_spaced hd hpaced.causal).between hpos hab

/-- Two attempts fail, the third one succeeds, and the new connection is lost at once. -/
def flappingRun : List Event :=
  [.listen true, .broken 0 true, .closed 0, .tick 200, .reconnectTimer, .refused 0, .tick 400,
    .reconnectTimer, .refused 1, .tick 800, .reconnectTimer, .opened 2, .resumeReplay 2, .resumeReplay 2,
    .broken 1 true, .closed 1, .tick 200, .reconnectTimer]

def flappingState : Redials := (machine referenceHost).after CatchesVacant initial flappingRun

theorem flappingRun_backoff : dialTimes flappingState.log = [200, 600, 1400, 1600] ∧
    History.Causal (Due referenceHost.options) flappingState.log ∧
    (((dialTimes flappingState.log).filter fun time => 0 ≤ time ∧ time ≤ 1600).length : ℤ) * 200 ≤
      200 + (1600 - 0) := by
  have hpaced := backoff_reach (r := flappingState)
    ((Machine.Reach.init rfl).after flappingRun)
  have hdelay : ∀ n, 200 ≤ referenceHost.options.delay n :=
    baseDelayMs_le_delay (by decide) (by decide) (by decide)
  exact ⟨by decide +kernel, hpaced.1, hpaced.2.2 200 (by decide) hdelay 0 1600 (by decide)⟩

end Redials

end UnoQ.Client
