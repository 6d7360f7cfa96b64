import UnoQ.Client.Views

/-!
# Losing, finding and closing the connection

Which state of a bridge tells how it stands with its connection, and what each step does
to it. From this: a bridge that lost its connection keeps trying to get another, and one
that was closed does not come back.
-/

namespace UnoQ.Client

namespace Calls
open Codec

/-! ### The `connected` flag -/

theorem attempt_flag (mp : Msgpack) (c : Calls) (k : ℕ) : (c.attempt mp k).connected = c.connected := by
  unfold attempt
  dsimp only
  split
  · split <;> rfl
  · rfl

theorem respond_flag (c : Calls) (msgid : ℕ) (r : Settlement) :
    (c.respond msgid r).connected = c.connected := by
  unfold respond
  split <;> rfl

theorem expire_flag (c : Calls) (a : ℕ) : (c.expire a).connected = c.connected := by
  unfold expire
  split <;> rfl

theorem caught_flag (c : Calls) (k : ℕ) (err : BridgeError) :
    (c.caught k err).connected = c.connected := by
  unfold caught
  dsimp only
  split
  · rfl
  · split <;> rfl

theorem resume_flag (mp : Msgpack) (c : Calls) (k : ℕ) : (c.resume mp k).connected = c.connected := by
  unfold resume
  split
  · split
    · rfl
    · rfl
    · exact c.caught_flag k _
  · exact c.attempt_flag mp k
  · rfl
  · rfl

theorem rejectAll_flag (l : List (ℕ × ℕ)) : ∀ c : Calls, (rejectAll l c).connected = c.connected := by
  induction l with
  | nil => exact fun _ => rfl
  | cons p rest ih =>
    intro c
    rw [rejectAll, ih]
    rfl

theorem onTransportClose_flag (c : Calls) : c.onTransportClose.connected = false :=
  rejectAll_flag c.pending.entries { c with connected := false }

end Calls

namespace Bridge
open Codec Transition BigEndian

/-! ### Steps that leave the connection alone -/

/-- What a bridge awaits of its connection is as it was; at most frames were sent. -/
structure SamePhase (s t : Bridge) : Prop where
  replays : t.replays = s.replays
  closings : t.closings = s.closings
  nextReplay : t.nextReplay = s.nextReplay
  nextClosing : t.nextClosing = s.nextClosing
  connected : t.calls.connected = s.calls.connected
  link : s.service.link.Sends t.service.link

theorem samePhase_refl (s : Bridge) : s.SamePhase s := ⟨rfl, rfl, rfl, rfl, rfl, Link.sends_refl _⟩

theorem SamePhase.trans {s t u : Bridge} (h : s.SamePhase t) (h' : t.SamePhase u) : s.SamePhase u :=
  ⟨h'.replays.trans h.replays, h'.closings.trans h.closings, h'.nextReplay.trans h.nextReplay,
    h'.nextClosing.trans h.nextClosing, h'.connected.trans h.connected, h.link.trans h'.link⟩

theorem samePhase_post {s : Bridge} {t : Bridge} (h : s.SamePhase t) (message : Option JsValue) :
    s.SamePhase (t.post message) :=
  { h with link := h.link.trans (Service.sends_post t.service message) }

theorem samePhase_callWithOptions (host : Host) (s : Bridge) (method : String)
    (params : List JsValue) (opts : CallOptions) :
    s.SamePhase (s.callWithOptions host method params opts) := by
  have h : s.SamePhase { s with calls := s.calls.callWithOptions host.mp method params opts } :=
    ⟨rfl, rfl, rfl, rfl, Calls.attempt_flag .., Link.sends_refl _⟩
  exact samePhase_post h _

theorem samePhase_register (host : Host) (s : Bridge) (method : String) (g : ℕ → Registration) :
    s.SamePhase (s.register host method g) :=
  { samePhase_callWithOptions host s "$/register" [.str method] ⟨none, none⟩ with }

theorem samePhase_provide (host : Host) (s : Bridge) (method : String) (handler : ℕ) :
    s.SamePhase (s.provide host method handler) := by
  unfold provide
  split
  · exact ⟨rfl, rfl, rfl, rfl, rfl, Link.sends_refl _⟩
  · exact samePhase_register ..

theorem samePhase_onNotify (host : Host) (s : Bridge) (method : String) (handler : ℕ) :
    s.SamePhase (s.onNotify host method handler) := by
  unfold onNotify
  split
  · exact ⟨rfl, rfl, rfl, rfl, rfl, Link.sends_refl _⟩
  · dsimp only
    split
    · exact ⟨rfl, rfl, rfl, rfl, rfl, Link.sends_refl _⟩
    · exact { samePhase_register host { s with notifyHandlers := s.notifyHandlers.set method [] }
        method (.onNotify method handler) with }

theorem samePhase_resumeRegistration (s : Bridge) (g : ℕ) :
    s.SamePhase (s.resumeRegistration g) := by
  unfold resumeRegistration
  split
  · exact s.samePhase_refl
  · split <;> exact ⟨rfl, rfl, rfl, rfl, rfl, Link.sends_refl _⟩
  · split <;> exact ⟨rfl, rfl, rfl, rfl, rfl, Link.sends_refl _⟩

theorem samePhase_handleMessage (host : Host) (s : Bridge) (msg : List JsValue) (thrower : Option ℕ) :
    s.SamePhase (s.handleMessage host msg thrower) := by
  unfold handleMessage handleResponse handleRequest handleNotify
  dsimp only
  split
  · split
    · exact s.samePhase_refl
    · split
      · exact s.samePhase_refl
      · exact ⟨rfl, rfl, rfl, rfl, Calls.respond_flag .., Link.sends_refl _⟩
  · split
    · split
      · exact ⟨rfl, rfl, rfl, rfl, rfl, Link.sends_refl _⟩
      · exact ⟨rfl, rfl, rfl, rfl, rfl, Service.sends_refuse ..⟩
    · split
      · exact ⟨rfl, rfl, rfl, rfl, rfl, Link.sends_refl _⟩
      · exact s.samePhase_refl

theorem samePhase_dispatch (host : Host) (s : Bridge) (thrower : Option ℕ) :
    s.SamePhase (s.dispatch host thrower) := by
  unfold dispatch
  split
  next msg rest hin =>
    have h := samePhase_handleMessage host s msg thrower
    dsimp only
    split <;> exact { h with }
  next => exact { s.samePhase_refl with }

/-- The events that have to do with the connection. -/
def Event.phase : Event → Bool
  | .close | .broken .. | .closed _ | .opened _ | .refused _ | .reconnectTimer | .resumeReplay _
  | .resumeClose _ => true
  | _ => false

theorem samePhase_apply (host : Host) (s : Bridge) {e : Event} (he : e.phase = false) :
    s.SamePhase (s.apply host e) := by
  cases e with
  | tick ms => exact { s.samePhase_refl with }
  | callWithOptions method params opts => exact samePhase_callWithOptions ..
  | notify method params => exact samePhase_post s.samePhase_refl _
  | provide method handler => exact samePhase_provide ..
  | onNotify method handler => exact samePhase_onNotify ..
  | unsubscribe method handler =>
    change s.SamePhase (s.unsubscribe method handler)
    unfold unsubscribe
    split <;> exact { s.samePhase_refl with }
  | listen present => exact { s.samePhase_refl with }
  | dispatch thrower => exact samePhase_dispatch ..
  | settle t o => exact { s.samePhase_refl with link := Service.sends_settle .. }
  | data c chunk => exact { s.samePhase_refl with }
  | callTimer a => exact { s.samePhase_refl with connected := Calls.expire_flag .. }
  | waitTimer k => exact { s.samePhase_refl with }
  | resumeCall k =>
    have h : s.SamePhase { s with calls := s.calls.resume host.mp k } :=
      { s.samePhase_refl with connected := Calls.resume_flag .. }
    exact samePhase_post h _
  | resumeRegistration g => exact samePhase_resumeRegistration ..
  | _ => contradiction

theorem replayNext_phase (host : Host) (s : Bridge) (r : ℕ) (todo : List String) :
    ∃ replay, replay ≠ .dialed ∧ (s.setReplay r replay).SamePhase (s.replayNext host r todo) := by
  cases todo with
  | nil => exact ⟨.returned, by simp, samePhase_refl _⟩
  | cons m rest =>
    refine ⟨.registering rest s.calls.nextCall, by simp, ?_⟩
    have h := samePhase_callWithOptions host s "$/register" [.str m] ⟨none, none⟩
    refine ⟨?_, h.closings, h.nextReplay, h.nextClosing, h.connected, h.link⟩
    change Function.update _ _ _ = Function.update _ _ _
    rw [show (s.call host "$/register" [.str m]).replays = s.replays from h.replays]

/-! ### Steps that do not -/

/-- `close()` up to its drain: no reconnect attempt will start any more. -/
def shutting (s : Bridge) : Bridge :=
  { s with
    service := { s.service with
      link := { s.service.link with closedByUs := true, reconnectTimer := none } }
    nextClosing := s.nextClosing + 1 }

/-- What a step makes of the connection and of those that await it. -/
inductive Moves (host : Host) (s : Bridge) : Event → Bridge → Prop
  | stay (e : Event) : e ≠ .close → Moves host s e s
  | reset (k : ℕ) : s.calls.connected = true →
      Moves host s .close (s.shutting.setClosing s.nextClosing (.resetting k))
  | shut : s.calls.connected = false → Moves host s .close (s.shutting.closeTransport s.nextClosing)
  | tearDown (x k : ℕ) : s.closings x = .resetting k → Moves host s (.resumeClose x) (s.closeTransport x)
  | finish (x : ℕ) (conn : Option ℕ) : s.closings x = .ending conn →
      (∀ c, conn = some c → (s.service.link.conns c).status = .closed) →
      Moves host s (.resumeClose x) (s.removeAllListeners.setClosing x .idle)
  | broken (c : ℕ) (d : Bool) : s.idle = true → s.service.link.IsOpen c → Moves host s (.broken c d)
      { s with service := { s.service with link := s.service.link.broken c d } }
  | closed (c : ℕ) : s.idle = true → s.service.link.IsOpen c →
      Moves host s (.closed c) (s.onTransportClose host c)
  | opened (r : ℕ) : s.idle = true → r ∈ s.service.link.dialing →
      Moves host s (.opened r) (s.opened r)
  | refused (r : ℕ) : s.idle = true → r ∈ s.service.link.dialing →
      Moves host s (.refused r) (s.refused host r)
  | reconnectTimer : s.service.link.reconnectTimer ≠ none → Moves host s .reconnectTimer s.doReconnect
  | connected (r : ℕ) (replay : Replay) : s.replays r = .dialed → replay ≠ .dialed →
      Moves host s (.resumeReplay r) (s.connected.setReplay r replay)
  | replay (r : ℕ) (replay : Replay) : s.replays r ≠ .idle → s.replays r ≠ .dialed →
      replay ≠ .dialed → Moves host s (.resumeReplay r) (s.setReplay r replay)
  | caught (r : ℕ) : s.replays r = .threw →
      Moves host s (.resumeReplay r) ((s.caught host).setReplay r .idle)

theorem moves_close (host : Host) (s : Bridge) :
    ∃ u, Moves host s .close u ∧ u.SamePhase (s.close host) := by
  by_cases hc : s.calls.connected = true
  · refine ⟨_, .reset s.calls.nextCall hc, ?_⟩
    let s' : Bridge :=
      { s with service := s.service.shut host.mp s.calls.connected, nextClosing := s.nextClosing + 1 }
    have hcall := samePhase_callWithOptions host s' "$/reset" [] ⟨some 500, none⟩
    have hshut : s.shutting.service.link.Sends s'.service.link := by
      change Link.Sends _ (s.service.shut host.mp s.calls.connected).link
      unfold Service.shut
      rw [if_pos hc]
      exact Service.sends_drain host.mp _ _
    have hclose : s.close host = (s'.callWithTimeout host "$/reset" 500 []).setClosing s.nextClosing
        (.resetting s.calls.nextCall) := if_pos hc
    rw [hclose]
    refine ⟨hcall.replays, ?_, hcall.nextReplay, hcall.nextClosing, hcall.connected,
      hshut.trans hcall.link⟩
    change Function.update _ _ _ = Function.update _ _ _
    rw [show (s'.callWithTimeout host "$/reset" 500 []).closings = s.closings from hcall.closings]
    rfl
  · refine ⟨_, .shut (Bool.not_eq_true _ ▸ hc), ?_⟩
    have hclose : s.close host = s.shutting.closeTransport s.nextClosing := by
      unfold close Service.shut
      dsimp only
      rw [if_neg hc, if_neg hc]
      rfl
    rw [hclose]
    exact samePhase_refl _

theorem moves_resumeReplay (host : Host) (s : Bridge) (r : ℕ) :
    ∃ u, Moves host s (.resumeReplay r) u ∧ u.SamePhase (s.resumeReplay host r) := by
  have hr := resumes host s r
  generalize s.resumeReplay host r = t at hr ⊢
  cases hr with
  | idle => exact ⟨s, .stay _ (by simp), s.samePhase_refl⟩
  | dialed h =>
    obtain ⟨replay, hne, hsame⟩ := replayNext_phase host s.connected r s.methods
    exact ⟨_, .connected r replay h hne, hsame⟩
  | next todo k h =>
    obtain ⟨replay, hne, hsame⟩ := replayNext_phase host s r todo
    exact ⟨_, .replay r replay (by simp [h]) (by simp [h]) hne, hsame⟩
  | throws todo k err h =>
    exact ⟨_, .replay r .threw (by simp [h]) (by simp [h]) (by simp), samePhase_refl _⟩
  | returned h =>
    exact ⟨_, .replay r .idle (by simp [h]) (by simp [h]) (by simp),
      { (s.setReplay r .idle).samePhase_refl with }⟩
  | caught h => exact ⟨_, .caught r h, samePhase_refl _⟩

theorem moves_resumeClose (host : Host) {s : Bridge} {x : ℕ}
    (he : s.enabled (.resumeClose x) = true) :
    ∃ u, Moves host s (.resumeClose x) u ∧ u.SamePhase (s.resumeClose x) := by
  unfold resumeClose
  split
  next h => exact ⟨s, .stay _ (by simp), s.samePhase_refl⟩
  next k h => exact ⟨_, .tearDown x k h, samePhase_refl _⟩
  next conn h =>
    refine ⟨_, .finish x conn h ?_, samePhase_refl _⟩
    rintro c rfl
    have hready : s.quiet = true ∧ (s.service.link.conns c).status = .closed := by
      simpa [enabled, closingReady, h] using he
    exact hready.2

/-- Every step is one of these moves, but for frames it may have sent. -/
theorem moves_apply (host : Host) {s : Bridge} {e : Event} (he : s.enabled e = true) :
    ∃ u, Moves host s e u ∧ u.SamePhase (s.apply host e) := by
  by_cases hp : e.phase = false
  · refine ⟨s, .stay e (fun hclose => ?_), samePhase_apply host s hp⟩
    rw [hclose] at hp
    contradiction
  · cases e with
    | close => exact moves_close host s
    | broken c d =>
      have hc : s.idle = true ∧ s.service.link.IsOpen c := by
        simpa [enabled, Link.IsOpen] using he
      exact ⟨_, .broken c d hc.1 hc.2, samePhase_refl _⟩
    | closed c =>
      have hc : s.idle = true ∧ s.service.link.IsOpen c := by
        simpa [enabled, Link.IsOpen] using he
      exact ⟨_, .closed c hc.1 hc.2, samePhase_refl _⟩
    | opened r =>
      have hr : s.idle = true ∧ r ∈ s.service.link.dialing := by simpa [enabled] using he
      exact ⟨_, .opened r hr.1 hr.2, samePhase_refl _⟩
    | refused r =>
      have hr : s.idle = true ∧ r ∈ s.service.link.dialing := by simpa [enabled] using he
      exact ⟨_, .refused r hr.1 hr.2, samePhase_refl _⟩
    | reconnectTimer =>
      refine ⟨_, .reconnectTimer (fun hn => ?_), samePhase_refl _⟩
      simp [enabled, hn] at he
    | resumeReplay r => exact moves_resumeReplay host s r
    | resumeClose x => exact moves_resumeClose host he
    | _ => exact absurd rfl hp

theorem SamePhase.link_eq {s t : Bridge} (h : s.SamePhase t) :
    t.service.link = { s.service.link with sent := t.service.link.sent } := by
  obtain ⟨more, hmore⟩ := h.link
  rw [hmore]

theorem setReplay_replays (s : Bridge) (r x : ℕ) (replay : Replay) :
    (s.setReplay r replay).replays x = if x = r then replay else s.replays x :=
  Function.update_apply s.replays r replay x

theorem setClosing_closings (s : Bridge) (x y : ℕ) (closing : Closing) :
    (s.setClosing x closing).closings y = if y = x then closing else s.closings y :=
  Function.update_apply s.closings x closing y

/-! ### A lost connection -/

/-- A bridge that is down and not closed waits for its timer or for a `connect()`, or has just got
the connection it waited for. -/
def Recovering (s : Bridge) : Prop :=
  s.calls.connected = false → s.service.link.closedByUs = false →
    s.service.link.reconnectTimer ≠ none ∨ s.service.link.dialing ≠ [] ∨ ∃ r, s.replays r = .dialed

/-- A reconnect attempt fails with a listener for its 'error', or after `close()`. -/
def Heard : Guard Bridge Event := fun s e _ =>
  match e with
  | .refused _ => s.errorListener = true ∨ s.service.link.closedByUs = true
  | _ => True

instance (s : Bridge) : ∀ (e : Event) (t : Bridge), Decidable (Heard s e t) := by
  rintro (_ | _) t <;> dsimp only [Heard] <;> infer_instance

theorem Recovering.samePhase {s t : Bridge} (h : s.Recovering) (hp : s.SamePhase t) :
    t.Recovering := by
  intro hdown hopen
  rw [hp.connected] at hdown
  rw [hp.link_eq] at hopen ⊢
  rw [hp.replays]
  exact h hdown hopen

theorem scheduleReconnect_armed (options : ReconnectOptions) (now : ℤ) (l : Link)
    (h : l.closedByUs = false) : (l.scheduleReconnect options now).reconnectTimer ≠ none := by
  unfold Link.scheduleReconnect
  split
  next ht =>
    rcases ht with ht | ht
    · exact Option.isSome_iff_ne_none.mp ht
    · rw [h] at ht
      contradiction
  next => simp

theorem closeTransport_link (s : Bridge) (x : ℕ) :
    (s.closeTransport x).service.link = s.service.link.close := rfl

theorem recovering_moves {host : Host} (henabled : host.options.enabled = true) {s u : Bridge}
    {e : Event} (h : s.Recovering) (hm : Moves host s e u) (hg : Heard s e u) : u.Recovering := by
  cases hm with
  | stay => exact h
  | reset => exact fun _ hopen => absurd hopen (by simp [shutting, setClosing])
  | shut =>
    intro _ hopen
    rw [closeTransport_link, Link.close_eq] at hopen
    exact absurd hopen (by simp [shutting])
  | tearDown x k hx =>
    intro hdown hopen
    rw [closeTransport_link, Link.close_eq] at hopen ⊢
    exact h hdown hopen
  | finish x conn hx hc => exact h
  | broken c d hi hc => exact h
  | closed c hi hc =>
    intro _ hopen
    refine Or.inl ?_
    change (s.service.link.closed host.options s.calls.now c).closedByUs = false at hopen
    change (s.service.link.closed host.options s.calls.now c).reconnectTimer ≠ none
    unfold Link.closed at hopen ⊢
    dsimp only at hopen ⊢
    split
    next hu => exact scheduleReconnect_armed _ _ _ hu.2
    next hu =>
      rw [if_neg hu] at hopen
      exact absurd ⟨henabled, hopen⟩ hu
  | opened r hi hr => exact fun _ _ => Or.inr (Or.inr ⟨r, by simp [opened, setReplay_replays]⟩)
  | refused r hi hr =>
    intro _ hopen
    refine Or.inl ?_
    change (s.service.link.refused host.options s.calls.now r s.errorListener).closedByUs = false at hopen
    change (s.service.link.refused host.options s.calls.now r s.errorListener).reconnectTimer ≠ none
    unfold Link.refused Link.caught at hopen ⊢
    split
    next hu => exact scheduleReconnect_armed _ _ _ hu.2
    next hu =>
      rw [if_neg hu] at hopen
      rcases hg with hl | hl
      · exact absurd ⟨hl, hopen⟩ hu
      · exact absurd hl (by simpa using hopen)
  | reconnectTimer ht =>
    intro _ hopen
    refine Or.inr (Or.inl ?_)
    have hopen' : s.service.link.closedByUs = false := hopen
    change (if s.service.link.closedByUs = true then _ else _) ≠ _
    simp [hopen']
  | connected r replay hr hne => exact fun hdown => absurd hdown (by simp [connected, setReplay])
  | replay r replay hr hd hne =>
    intro hdown hopen
    refine (h hdown hopen).imp id (Or.imp id fun ⟨x, hx⟩ => ⟨x, ?_⟩)
    have hxr : x ≠ r := fun hxr => hd (hxr ▸ hx)
    rw [setReplay_replays, if_neg hxr, hx]
  | caught r hr =>
    intro hdown hopen
    have heq := Link.caught_eq host.options s.calls.now s.service.link s.errorListener
    change (s.service.link.caught host.options s.calls.now s.errorListener).closedByUs = false at hopen
    rw [heq] at hopen
    rcases h hdown hopen with ht | hd | ⟨x, hx⟩
    · refine Or.inl ?_
      change (s.service.link.caught host.options s.calls.now s.errorListener).reconnectTimer ≠ none
      rw [Link.caught_of_armed host.options s.calls.now ht]
      exact ht
    · refine Or.inr (Or.inl ?_)
      change (s.service.link.caught host.options s.calls.now s.errorListener).dialing ≠ []
      rw [heq]
      exact hd
    · have hxr : x ≠ r := by
        rintro rfl
        rw [hr] at hx
        contradiction
      refine Or.inr (Or.inr ⟨x, ?_⟩)
      rw [setReplay_replays, if_neg hxr]
      exact hx

/-- The reconnect chain holds in every run in which no reconnect attempt fails unheard. -/
theorem recovering_of_heard (host : Host) (s : Bridge) (henabled : host.options.enabled = true)
    (h : (machine host).Reach Heard s) : s.Recovering := by
  refine h.invariant ?_ ?_
  · rintro _ rfl hdown
    contradiction
  · intro s e t _ hs hstep hg
    obtain ⟨he, rfl⟩ := Machine.ofEnabled_step.mp hstep
    obtain ⟨u, hm, hp⟩ := moves_apply host he
    exact (recovering_moves henabled hs hm (by cases e <;> exact hg)).samePhase hp

/-- Nobody listens for the 'error' event. -/
def Unattended : Guard Bridge Event := fun _ _ t => t.errorListener = false

instance (s : Bridge) (e : Event) (t : Bridge) : Decidable (Unattended s e t) :=
  inferInstanceAs (Decidable (t.errorListener = false))

def droppedRun : List Event := [.broken 0 true, .closed 0, .tick 200, .reconnectTimer]

/-- A listener hears of an attempt that fails; the next one is due. -/
def heardRun : List Event := .listen true :: droppedRun ++ [.refused 0, .tick 400, .reconnectTimer]

theorem heardRun_recovering :
    ((machine referenceHost).checked Heard initial heardRun).isSome = true ∧
      ((machine referenceHost).after Heard initial heardRun).Recovering :=
  ⟨by decide +kernel,
    recovering_of_heard referenceHost _ rfl ((Machine.Reach.init rfl).after heardRun)⟩

/-- The first reconnect attempt fails, and nobody listens. -/
theorem refusedRun_stuck : ¬ ∀ s : Bridge, (machine referenceHost).Reach Unattended s →
    s.Recovering := by
  intro hall
  have hstuck := hall _ ((Machine.Reach.init rfl).after (droppedRun ++ [.refused 0]))
    (by decide +kernel) (by decide +kernel)
  have hnone : ∀ r, ((machine referenceHost).after Unattended initial
      (droppedRun ++ [.refused 0])).replays r = .idle := by
    intro r
    rfl
  rcases hstuck with ht | hd | ⟨r, hr⟩
  · exact absurd ht (by decide +kernel)
  · exact absurd hd (by decide +kernel)
  · rw [hnone r] at hr
    contradiction

end Bridge

end UnoQ.Client
