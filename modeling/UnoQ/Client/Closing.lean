import UnoQ.Client.Inbound
import UnoQ.Client.Lifecycle

/-!
# Closing a bridge

What is left of a bridge once a `close()` has resolved: no connection, no frame, nothing
that could bring it back. A `connect()` that was in progress when `close()` was called is
what `close()` does not see; everything below is for runs in which none resolves later.
-/

namespace UnoQ.Client
open Codec Transition BigEndian

namespace Link

/-- Nothing can be written, and only a `connect()` that resolves could change that. -/
def Silent (l : Link) : Prop := l.closedByUs = true ∧ l.socket = none

theorem Silent.write {l : Link} (h : l.Silent) (message : JsValue)
    (response : Option (MapKey × Author)) : l.write message response = l := by
  rcases l.write_cases message response with ⟨-, he⟩ | ⟨c, hc, -⟩
  · exact he
  · have hsock := (writable_socket hc).1
    rw [h.2] at hsock
    contradiction

theorem Silent.send {l : Link} (h : l.Silent) (mp : Msgpack) (message : JsValue)
    (response : Option (MapKey × Author)) : l.send mp message response = l := by
  unfold Link.send
  split
  · exact h.write message response
  · rfl

end Link

namespace Service

/-- No `connect()` of a reconnect attempt resolves after `close()` was called. -/
def InTime (w : Service) : Event → Prop
  | .opened _ => w.link.closedByUs = false
  | _ => True

theorem Silent.drain {l : Link} (h : l.Silent) (mp : Msgpack) (es : List (MapKey × InFlight)) :
    drain mp es l = l := by
  induction es with
  | nil => rfl
  | cons p rest ih => rw [Service.drain, h.send, ih]

theorem silent_apply (mp : Msgpack) (options : ReconnectOptions) {w : Service}
    (h : w.link.Silent) {e : Event} (hg : w.InTime e) :
    (w.apply mp options e).link.Silent ∧ (w.apply mp options e).link.sent = w.link.sent := by
  cases e with
  | write message =>
    change (w.link.write message none).Silent ∧ (w.link.write message none).sent = _
    rw [h.write]
    exact ⟨h, rfl⟩
  | receive c msgid method params handler => exact ⟨h, rfl⟩
  | refuse c msgid method =>
    have hlink : (w.refuse mp c msgid method).link = w.link := by
      unfold refuse
      cases method with
      | none => rfl
      | some text => exact h.send mp _ _
    change (w.refuse mp c msgid method).link.Silent ∧ _
    rw [hlink]
    exact ⟨h, hlink ▸ rfl⟩
  | settle t o =>
    have hlink : (w.settle mp t o).link = w.link := by
      rcases settle_cases mp w t o with ⟨-, he⟩ | ⟨message, -, -, he⟩
      · rw [he]
      · rw [he]
        exact h.send mp _ _
    change (w.settle mp t o).link.Silent ∧ (w.settle mp t o).link.sent = _
    rw [hlink]
    exact ⟨h, rfl⟩
  | shut connected =>
    have hs : ({ w.link with closedByUs := true, reconnectTimer := none } : Link).Silent := ⟨rfl, h.2⟩
    have hlink : (w.shut mp connected).link =
        { w.link with closedByUs := true, reconnectTimer := none } := by
      unfold shut
      dsimp only
      split
      · exact Silent.drain hs mp _
      · rfl
    change (w.shut mp connected).link.Silent ∧ (w.shut mp connected).link.sent = _
    rw [hlink]
    exact ⟨hs, rfl⟩
  | close =>
    have hlink : w.link.close = w.link := by
      unfold Link.close
      rw [h.2]
    change w.link.close.Silent ∧ w.link.close.sent = _
    rw [hlink]
    exact ⟨h, rfl⟩
  | doReconnect r => exact ⟨h, rfl⟩
  | opened r =>
    have hopen : w.link.closedByUs = false := hg
    rw [h.1] at hopen
    contradiction
  | refused r now listener =>
    change (w.link.refused options now r listener).Silent ∧
      (w.link.refused options now r listener).sent = _
    rw [Link.refused_eq]
    exact ⟨h, rfl⟩
  | caught now listener =>
    change (w.link.caught options now listener).Silent ∧ (w.link.caught options now listener).sent = _
    rw [Link.caught_eq]
    exact ⟨h, rfl⟩
  | reconnected => exact ⟨h, rfl⟩
  | closed c now =>
    change (w.link.closed options now c).Silent ∧ (w.link.closed options now c).sent = _
    rw [Link.closed_eq]
    exact ⟨⟨h.1, by simp [h.2]⟩, rfl⟩
  | broken c destroyed => exact ⟨h, rfl⟩

end Service

namespace Bridge

/-- Nothing of the bridge is on its way to a connection. -/
def Down (s : Bridge) : Prop := s.service.link.Silent ∧ ∀ r, s.replays r ≠ .dialed

/-- A `close()` that has only to resolve, or has. -/
def Past (s : Bridge) (x : ℕ) : Prop :=
  match s.closings x with
  | .idle => x < s.nextClosing
  | .resetting _ => False
  | .ending none => True
  | .ending (some c) => (s.service.link.conns c).status = .closed

structure Shutting (s : Bridge) : Prop where
  fresh : ∀ x, s.nextClosing ≤ x → s.closings x = .idle
  dialing : ∀ r ∈ s.service.link.dialing, r < s.nextReplay
  replays : ∀ r, s.replays r ≠ .idle → r < s.nextReplay
  dialed : ∀ r, s.replays r = .dialed →
    ∃ c, s.service.link.socket = some c ∧ (s.service.link.conns c).destroyed = false
  closed : ∀ x, s.closings x ≠ .idle → s.service.link.closedByUs = true

def AllDown (s : Bridge) : Prop := ∀ x, s.Past x → s.Down

def InTime : Guard Bridge Event := fun s e _ =>
  match e with
  | .opened r => s.service.InTime (.opened r)
  | _ => True

instance (s : Bridge) : ∀ (e : Event) (t : Bridge), Decidable (InTime s e t) := by
  rintro (_ | _) t <;> dsimp only [InTime, Service.InTime] <;> infer_instance

theorem Down.samePhase {s t : Bridge} (h : s.Down) (hp : s.SamePhase t) : t.Down := by
  refine ⟨?_, fun r => hp.replays ▸ h.2 r⟩
  rw [hp.link_eq]
  exact h.1

theorem past_samePhase {s t : Bridge} (hp : s.SamePhase t) (x : ℕ) : t.Past x ↔ s.Past x := by
  unfold Past
  rw [hp.closings, hp.nextClosing, hp.link_eq]

theorem Shutting.samePhase {s t : Bridge} (h : s.Shutting) (hp : s.SamePhase t) : t.Shutting := by
  have hlink := hp.link_eq
  constructor
  · rw [hp.nextClosing, hp.closings]
    exact h.fresh
  · rw [hlink, hp.nextReplay]
    exact h.dialing
  · rw [hp.replays, hp.nextReplay]
    exact h.replays
  · rw [hlink, hp.replays]
    exact h.dialed
  · rw [hlink, hp.closings]
    exact h.closed

theorem AllDown.samePhase {s t : Bridge} (h : s.AllDown) (hp : s.SamePhase t) : t.AllDown :=
  fun x hx => (h x ((past_samePhase hp x).mp hx)).samePhase hp

theorem Shutting.not_due {s : Bridge} (h : s.Shutting) (hidle : s.idle = true) (r : ℕ) :
    (s.replays r).due = false := by
  have hi : s.quiet = true ∧ ∀ r < s.nextReplay, (s.replays r).due = false := of_decide_eq_true hidle
  by_cases hr : s.replays r = .idle
  · rw [hr]
    rfl
  · exact hi.2 r (h.replays r hr)

theorem Shutting.not_dialed {s : Bridge} (h : s.Shutting) (hidle : s.idle = true) (r : ℕ) :
    s.replays r ≠ .dialed := by
  intro hr
  have hdue := h.not_due hidle r
  rw [hr] at hdue
  contradiction

theorem closeTransport_closings (s : Bridge) {x y : ℕ} (h : y ≠ x) :
    (s.closeTransport x).closings y = s.closings y :=
  (setClosing_closings ..).trans (if_neg h)

theorem Down.closeTransport {s : Bridge} (h : s.Down) (x : ℕ) : (s.closeTransport x).Down := by
  refine ⟨?_, h.2⟩
  have hlink : s.service.link.close = s.service.link := by
    unfold Link.close
    rw [h.1.2]
  rw [closeTransport_link, hlink]
  exact h.1

/-- `transport.close()` leaves a connection to wait for, or nothing. -/
theorem down_of_past_closeTransport {s : Bridge} (h : s.Shutting)
    (hopen : ∀ c, s.service.link.socket = some c → s.service.link.IsOpen c)
    (hclosed : s.service.link.closedByUs = true) {x : ℕ} (hx : (s.closeTransport x).Past x) :
    (s.closeTransport x).Down := by
  unfold Past at hx
  rw [show (s.closeTransport x).closings x = .ending (s.service.link.socket.filter fun c =>
    !(s.service.link.conns c).destroyed) from (setClosing_closings ..).trans (if_pos rfl)] at hx
  cases hconn : s.service.link.socket.filter fun c => !(s.service.link.conns c).destroyed with
  | none =>
    refine ⟨⟨?_, ?_⟩, fun r hr => ?_⟩
    · rw [closeTransport_link, Link.close_eq]
      exact hclosed
    · rw [closeTransport_link, Link.close_socket]
      exact hconn
    · obtain ⟨c, hs, hd⟩ := h.dialed r hr
      simp [hs, hd, Option.filter] at hconn
  | some c =>
    rw [hconn] at hx
    have hstatus : ((s.closeTransport x).service.link.conns c).status = .closed := hx
    rw [closeTransport_link, (Link.close_conns _ c).1] at hstatus
    have hc := hopen c (Option.filter_eq_some_iff.mp hconn).1
    unfold Link.IsOpen at hc
    rw [hstatus] at hc
    contradiction

/-- A `close()` that a step does not touch is past nothing new, unless a connection ended. -/
theorem Past.unmoved {s t : Bridge} {x : ℕ} (h : t.Past x) (hclosing : t.closings x = s.closings x)
    (hnext : x < t.nextClosing → x < s.nextClosing)
    (hstatus : ∀ c, (t.service.link.conns c).status = .closed →
      (s.service.link.conns c).status = .closed) : s.Past x := by
  unfold Past at h ⊢
  rw [hclosing] at h
  cases hx : s.closings x with
  | idle =>
    rw [hx] at h
    exact hnext h
  | resetting k =>
    rw [hx] at h
    exact h
  | ending conn =>
    rw [hx] at h
    cases conn with
    | none => trivial
    | some c => exact hstatus c h

theorem shutting_shutting {s : Bridge} (h : s.Shutting) : s.shutting.Shutting :=
  { h with
    fresh := fun x hx => h.fresh x (Nat.le_of_succ_le hx)
    closed := fun _ _ => rfl }

theorem shutting_setClosing {s : Bridge} (h : s.Shutting) {x : ℕ} (hx : x < s.nextClosing)
    (hclosed : s.service.link.closedByUs = true) (closing : Closing) :
    (s.setClosing x closing).Shutting := by
  refine { h with fresh := fun y hy => ?_, closed := fun _ _ => hclosed }
  have hy' : s.nextClosing ≤ y := hy
  rw [setClosing_closings, if_neg (by omega)]
  exact h.fresh y hy

theorem shutting_closeTransport {s : Bridge} (h : s.Shutting) {x : ℕ} (hx : x < s.nextClosing)
    (hclosed : s.service.link.closedByUs = true) : (s.closeTransport x).Shutting := by
  have hlink : ({ s with service := { s.service with link := s.service.link.close } } : Bridge).Shutting := by
    refine { h with dialing := ?_, dialed := fun r hr => ?_, closed := fun y hy => ?_ }
    · rw [Link.close_eq]
      exact h.dialing
    · obtain ⟨c, hs, hd⟩ := h.dialed r hr
      refine ⟨c, ?_, ?_⟩
      · rw [Link.close_socket, hs]
        simp [Option.filter, hd]
      · rw [(Link.close_conns _ c).2, hd]
    · rw [Link.close_eq]
      exact h.closed y hy
  refine shutting_setClosing hlink hx ?_ _
  rw [Link.close_eq]
  exact hclosed

theorem shutting_setReplay {s : Bridge} (h : s.Shutting) {r : ℕ} {replay : Replay}
    (hr : r < s.nextReplay) (hne : replay ≠ .dialed) : (s.setReplay r replay).Shutting := by
  have hreplays := setReplay_replays s r
  refine { h with replays := fun x hx => ?_, dialed := fun x hx => ?_ }
  · rw [hreplays] at hx
    split at hx
    next hxr => rw [hxr]; exact hr
    next => exact h.replays x hx
  · rw [hreplays] at hx
    split at hx
    next => exact absurd hx hne
    next => exact h.dialed x hx

theorem Shutting.lt_nextClosing {s : Bridge} (h : s.Shutting) {x : ℕ} (hx : s.closings x ≠ .idle) :
    x < s.nextClosing := by
  by_contra hge
  exact hx (h.fresh x (by omega))

theorem shutting_moves {host : Host} {s u : Bridge} {e : Event} (h : s.Shutting)
    (hm : Moves host s e u) : u.Shutting := by
  cases hm with
  | stay => exact h
  | reset k hc => exact shutting_setClosing (shutting_shutting h) (Nat.lt_succ_self _) rfl _
  | shut hc => exact shutting_closeTransport (shutting_shutting h) (Nat.lt_succ_self _) rfl
  | tearDown x k hx =>
    have hne : s.closings x ≠ .idle := by simp [hx]
    exact shutting_closeTransport h (h.lt_nextClosing hne) (h.closed x hne)
  | finish x conn hx hc =>
    have hne : s.closings x ≠ .idle := by simp [hx]
    have hrest : s.removeAllListeners.Shutting := { h with }
    exact shutting_setClosing hrest (h.lt_nextClosing hne) (h.closed x hne) _
  | broken c d hidle hc =>
    exact { h with dialed := fun r hr => absurd hr (h.not_dialed hidle r) }
  | closed c hidle hc =>
    have hlink := Link.closed_eq host.options s.calls.now s.service.link c
    refine { h with
      dialing := ?_, dialed := fun r hr => absurd hr (h.not_dialed hidle r), closed := fun x hx => ?_ }
    · change ∀ r ∈ (s.service.link.closed host.options s.calls.now c).dialing, _
      rw [hlink]
      exact h.dialing
    · change (s.service.link.closed host.options s.calls.now c).closedByUs = true
      rw [hlink]
      exact h.closed x hx
  | opened r hidle hr =>
    have hreplays : ∀ x, (s.opened r).replays x = if x = r then .dialed else s.replays x :=
      fun x => setReplay_replays _ r x _
    refine { h with dialing := fun x hx => ?_, replays := fun x hx => ?_, dialed := fun x hx => ?_ }
    · exact h.dialing x (List.mem_of_mem_erase hx)
    · rw [hreplays] at hx
      split at hx
      next hxr => rw [hxr]; exact h.dialing r hr
      next => exact h.replays x hx
    · exact ⟨s.service.link.nextConn, rfl, by simp [opened, setReplay, Link.opened]⟩
  | refused r hidle hr =>
    have hlink := Link.refused_eq host.options s.calls.now s.service.link r s.errorListener
    refine { h with dialing := ?_, dialed := fun r hr => absurd hr (h.not_dialed hidle r), closed := fun x hx => ?_ }
    · change ∀ x ∈ (s.service.link.refused host.options s.calls.now r s.errorListener).dialing, _
      rw [hlink]
      exact fun x hx => h.dialing x (List.mem_of_mem_erase hx)
    · change (s.service.link.refused host.options s.calls.now r s.errorListener).closedByUs = true
      rw [hlink]
      exact h.closed x hx
  | reconnectTimer ht =>
    refine { h with
      dialing := fun r hr => ?_, replays := fun r hr => Nat.lt_succ_of_lt (h.replays r hr) }
    change r ∈ (if s.service.link.closedByUs = true then _ else _) at hr
    split at hr
    · exact Nat.lt_succ_of_lt (h.dialing r hr)
    · rcases List.mem_cons.mp hr with rfl | hr
      · exact Nat.lt_succ_self _
      · exact Nat.lt_succ_of_lt (h.dialing r hr)
  | connected r replay hr hne =>
    have hconnected : s.connected.Shutting := { h with }
    exact shutting_setReplay hconnected (h.replays r (by simp [hr])) hne
  | replay r replay hr hd hne => exact shutting_setReplay h (h.replays r hr) hne
  | caught r hr =>
    have heq := Link.caught_eq host.options s.calls.now s.service.link s.errorListener
    have hcaught : (s.caught host).Shutting := by
      refine { h with dialing := ?_, dialed := fun x hx => ?_, closed := fun x hx => ?_ }
      · change ∀ x ∈ (s.service.link.caught host.options s.calls.now s.errorListener).dialing, _
        rw [heq]
        exact h.dialing
      · change ∃ c, (s.service.link.caught host.options s.calls.now s.errorListener).socket = some c ∧ _
        rw [caught, heq]
        exact h.dialed x hx
      · change (s.service.link.caught host.options s.calls.now s.errorListener).closedByUs = true
        rw [heq]
        exact h.closed x hx
    exact shutting_setReplay hcaught (h.replays r (by simp [hr])) (by simp)

/-- A bridge that is down stays down. -/
theorem down_moves {host : Host} {s u : Bridge} {e : Event} (h : s.Down) (hm : Moves host s e u)
    (hg : InTime s e u) : u.Down := by
  have hreset : s.shutting.Down := ⟨⟨rfl, h.1.2⟩, h.2⟩
  cases hm with
  | stay => exact h
  | reset k hc => exact hreset
  | shut hc => exact hreset.closeTransport _
  | tearDown x k hx => exact h.closeTransport x
  | finish x conn hx hc => exact h
  | broken c d hidle hc => exact h
  | closed c hidle hc =>
    refine ⟨?_, h.2⟩
    change (s.service.link.closed host.options s.calls.now c).Silent
    rw [Link.closed_eq]
    exact ⟨h.1.1, by simp [h.1.2]⟩
  | opened r hidle hr =>
    have hopen : s.service.link.closedByUs = false := hg
    rw [h.1.1] at hopen
    contradiction
  | refused r hidle hr =>
    refine ⟨?_, h.2⟩
    change (s.service.link.refused host.options s.calls.now r s.errorListener).Silent
    rw [Link.refused_eq]
    exact h.1
  | reconnectTimer ht => exact h
  | connected r replay hr hne => exact absurd hr (h.2 r)
  | replay r replay hr hd hne =>
    refine ⟨h.1, fun x hx => ?_⟩
    rw [setReplay_replays] at hx
    split at hx
    next => exact hne hx
    next => exact h.2 x hx
  | caught r hr =>
    refine ⟨?_, fun x hx => ?_⟩
    · change (s.service.link.caught host.options s.calls.now s.errorListener).Silent
      rw [Link.caught_eq]
      exact h.1
    · rw [setReplay_replays] at hx
      split at hx
      next => contradiction
      next => exact h.2 x hx

theorem Past.begun {s : Bridge} {x : ℕ} (h : s.Past x) : s.closings x ≠ .idle ∨ x < s.nextClosing := by
  by_cases hx : s.closings x = .idle
  · unfold Past at h
    rw [hx] at h
    exact Or.inr h
  · exact Or.inl hx

theorem closedByUs_of_past {s : Bridge} (hs : s.Shutting) (h : s.AllDown) {x : ℕ}
    (hx : s.closings x ≠ .idle ∨ x < s.nextClosing) : s.service.link.closedByUs = true := by
  by_cases hidle : s.closings x = .idle
  · rcases hx with hx | hx
    · exact absurd hidle hx
    · refine (h x ?_).1.1
      unfold Past
      rw [hidle]
      exact hx
  · exact hs.closed x hidle

theorem allDown_moves {host : Host} {s u : Bridge} {e : Event} (hi : s.service.link.Inv)
    (hone : s.service.link.Single) (hs : s.Shutting) (h : s.AllDown) (hm : Moves host s e u) (hg : InTime s e u) : u.AllDown := by
  intro x hx
  have hold : s.Past x → u.Down := fun hp => down_moves (h x hp) hm hg
  cases hm with
  | stay => exact h x hx
  | reset k hc =>
    have hclosing : ∀ y, (s.shutting.setClosing s.nextClosing (.resetting k)).closings y =
        if y = s.nextClosing then .resetting k else s.closings y :=
      fun y => setClosing_closings s.shutting s.nextClosing y _
    by_cases hxn : x = s.nextClosing
    · unfold Past at hx
      rw [hclosing, if_pos hxn] at hx
      contradiction
    · refine hold (hx.unmoved ((hclosing x).trans (if_neg hxn)) (fun hlt => ?_) (fun _ hc => hc))
      have hlt' : x < s.nextClosing + 1 := hlt
      omega
  | shut hc =>
    by_cases hxn : x = s.nextClosing
    · subst hxn
      exact down_of_past_closeTransport (shutting_shutting hs) hi.socket rfl hx
    · refine hold (hx.unmoved (closeTransport_closings s.shutting hxn) (fun hlt => ?_)
        (fun c hc => (Link.close_conns s.shutting.service.link c).1.symm.trans hc))
      have hlt' : x < s.nextClosing + 1 := hlt
      omega
  | tearDown y k hy =>
    by_cases hxy : x = y
    · subst hxy
      exact down_of_past_closeTransport hs hi.socket (hs.closed x (by simp [hy])) hx
    · exact hold (hx.unmoved (closeTransport_closings s hxy) (fun hlt => hlt)
        (fun c hc => (Link.close_conns _ c).1.symm.trans hc))
  | finish y conn hy hc =>
    by_cases hxy : x = y
    · subst hxy
      refine hold ?_
      unfold Past
      rw [hy]
      cases conn with
      | none => trivial
      | some c => exact hc c rfl
    · exact hold (hx.unmoved ((setClosing_closings ..).trans (if_neg hxy)) (fun hlt => hlt)
        (fun _ hc => hc))
  | broken c d hidle hc =>
    refine hold (hx.unmoved rfl (fun hlt => hlt) (fun b hb => ?_))
    exact (s.service.link.broken_status c b d).symm.trans hb
  | closed c hidle hc =>
    have hclosed := closedByUs_of_past hs h hx.begun
    refine ⟨?_, hs.not_dialed hidle⟩
    change (s.service.link.closed host.options s.calls.now c).Silent
    rw [Link.closed_eq]
    refine ⟨hclosed, ?_⟩
    change (if s.service.link.socket = some c then none else s.service.link.socket) = none
    split
    · rfl
    next hne =>
      cases hd : s.service.link.socket with
      | none => rfl
      | some d => exact absurd (hone.single d c (hi.socket d hd) hc ▸ hd) hne
  | opened r hidle hr =>
    have hopen : s.service.link.closedByUs = false := hg
    rw [closedByUs_of_past hs h hx.begun] at hopen
    contradiction
  | refused r hidle hr =>
    refine hold (hx.unmoved rfl (fun hlt => hlt) (fun b hb => ?_))
    change ((s.service.link.refused host.options s.calls.now r s.errorListener).conns b).status = _ at hb
    rw [Link.refused_eq] at hb
    exact hb
  | reconnectTimer ht => exact hold (hx.unmoved rfl (fun hlt => hlt) (fun _ hc => hc))
  | connected r replay hr hne => exact hold (hx.unmoved rfl (fun hlt => hlt) (fun _ hc => hc))
  | replay r replay hr hd hne => exact hold (hx.unmoved rfl (fun hlt => hlt) (fun _ hc => hc))
  | caught r hr =>
    refine hold (hx.unmoved rfl (fun hlt => hlt) (fun b hb => ?_))
    change ((s.service.link.caught host.options s.calls.now s.errorListener).conns b).status = _ at hb
    rw [Link.caught_eq] at hb
    exact hb

theorem connected_moves {host : Host} {s u : Bridge} {e : Event} (h : s.Down)
    (hm : Moves host s e u) (hu : u.calls.connected = true) : s.calls.connected = true := by
  cases hm with
  | closed c hidle hc =>
    change s.calls.onTransportClose.connected = true at hu
    rw [Calls.onTransportClose_flag] at hu
    contradiction
  | connected r replay hr hne => exact absurd hr (h.2 r)
  | _ => exact hu

theorem shutting_initial : initial.Shutting where
  fresh := fun _ _ => rfl
  dialing := by simp [initial, Service.initial, Link.initial]
  replays := fun _ h => absurd rfl h
  dialed := fun _ h => by contradiction
  closed := fun _ h => absurd rfl h

theorem shutting_reach {host : Host} {ok : Guard Bridge Event} {s : Bridge}
    (h : (machine host).Reach ok s) : s.Shutting := by
  refine h.invariant ?_ ?_
  · rintro _ rfl
    exact shutting_initial
  · intro s e t _ hs hstep _
    obtain ⟨he, rfl⟩ := Machine.ofEnabled_step.mp hstep
    obtain ⟨u, hm, hp⟩ := moves_apply host he
    exact (shutting_moves hs hm).samePhase hp

theorem inTime_congr {s t u : Bridge} {e : Event} (h : InTime s e t) : InTime s e u := by
  cases e <;> exact h

theorem allDown_reach {host : Host} {s : Bridge} (h : (machine host).Reach (InTime.and OneByOne) s) :
    s.AllDown := by
  refine h.invariant ?_ ?_
  · rintro _ rfl x hx
    exact absurd hx (Nat.not_lt_zero x)
  · intro s e t hr hs hstep hg
    obtain ⟨he, rfl⟩ := Machine.ofEnabled_step.mp hstep
    obtain ⟨u, hm, hp⟩ := moves_apply host he
    have hdown := allDown_moves (service_inv hr).link (single_reach hr.right) (shutting_reach hr) hs hm
      (inTime_congr hg.1)
    exact hdown.samePhase hp

/-! ### Closed stays closed -/

def Resolved (s : Bridge) (x : ℕ) : Prop := x < s.nextClosing ∧ s.closings x = .idle

instance (s : Bridge) (x : ℕ) : Decidable (s.Resolved x) :=
  inferInstanceAs (Decidable (x < s.nextClosing ∧ s.closings x = .idle))

/-- From `s` to `t` the bridge wrote nothing, in `t` it holds no connection that still works, and no
step makes it connected. -/
structure StaysClosed (host : Host) (s t : Bridge) : Prop where
  sent : t.service.link.sent = s.service.link.sent
  socket : t.service.link.socket = none
  conns : ∀ c, t.service.link.IsOpen c → (t.service.link.conns c).destroyed = true
  disconnected : ∀ e u, (machine host).step t e = some u → u.calls.connected = true →
    t.calls.connected = true

theorem down_since {host : Host} {s t : Bridge} (h : s.Down)
    (ht : ((machine host).startingAt s).Reach InTime t) : t.Down := by
  refine ht.invariant ?_ ?_
  · rintro _ rfl
    exact h
  · intro u e v _ hu hstep hg
    obtain ⟨he, rfl⟩ := Machine.ofEnabled_step.mp (show (machine host).step u e = some v from hstep)
    obtain ⟨w, hm, hp⟩ := moves_apply host he
    exact (down_moves hu hm (inTime_congr hg)).samePhase hp

theorem governs_inTime (host : Host) : Governs host InTime fun w e _ => w.InTime e where
  plain w e v he := by cases e <;> trivial
  settle _ _ _ _ _ := trivial
  shut _ _ _ := trivial
  close _ _ _ _ := trivial
  resumeClose _ _ _ _ _ _ := trivial
  opened _ _ _ h := h
  caught _ _ _ _ _ := trivial
  closed _ _ _ _ := trivial
  broken _ _ _ _ _ := trivial

theorem sent_since {host : Host} {s t : Bridge} (hs : (machine host).Reach InTime s)
    (h : s.service.link.Silent) (ht : ((machine host).startingAt s).Reach InTime t) :
    t.service.link.sent = s.service.link.sent := by
  have hrun := serviceRun_since (governs_inTime host) hs ht
  have hboth : t.service.link.Silent ∧ t.service.link.sent = s.service.link.sent := by
    refine hrun.invariant (P := fun w => w.link.Silent ∧ w.link.sent = s.service.link.sent) ?_ ?_
    · rintro _ rfl
      exact ⟨h, rfl⟩
    · intro w e v _ hw hstep hg
      obtain ⟨-, rfl⟩ := Machine.ofEnabled_step.mp hstep
      have hnext := Service.silent_apply host.mp host.options hw.1 hg
      exact ⟨hnext.1, hnext.2.trans hw.2⟩
  exact hboth.2

/-- A bridge whose `close()` has resolved stays closed, in runs in which no `connect()` resolves
after `close()` was called, or while an earlier connection is open. -/
theorem staysClosed_of_inTime (host : Host) (s t : Bridge) (x : ℕ)
    (hs : (machine host).Reach (InTime.and OneByOne) s) (hx : s.Resolved x)
    (ht : ((machine host).startingAt s).Reach (InTime.and OneByOne) t) : StaysClosed host s t := by
  have hpast : s.Past x := by
    unfold Past
    rw [hx.2]
    exact hx.1
  have hdown := allDown_reach hs x hpast
  have htdown := down_since hdown ht.left
  have hone := single_reach (hs.append ht).right
  refine ⟨sent_since hs.left hdown.1 ht.left, htdown.1.2, fun c hc => ?_, fun e u hstep hu => ?_⟩
  · by_contra hd
    have hsock := hone.current c hc (Bool.not_eq_true _ ▸ hd)
    rw [htdown.1.2] at hsock
    contradiction
  · obtain ⟨he, rfl⟩ := Machine.ofEnabled_step.mp hstep
    obtain ⟨v, hm, hp⟩ := moves_apply host he
    exact connected_moves htdown hm (hp.connected ▸ hu)

/-- The router answers `$/reset`, and the connection ends. -/
def closedRun : List Event :=
  providing ++ [.close, .data 0 [0x94, 1, 2, 0xc0, 0xc3], .dispatch none, .resumeCall 1, .resumeClose 0,
    .closed 0, .resumeClose 0]

def lateCalls : List Event := [.provide "g" 8, .callWithOptions "read" [] ⟨none, none⟩, .tick 200]

theorem closedRun_staysClosed :
    ((machine referenceHost).checked (InTime.and OneByOne) initial
        (closedRun ++ lateCalls)).isSome = true ∧
      StaysClosed referenceHost ((machine referenceHost).after (InTime.and OneByOne) initial closedRun)
        ((machine referenceHost).after (InTime.and OneByOne)
          ((machine referenceHost).after (InTime.and OneByOne) initial closedRun) lateCalls) :=
  ⟨by decide +kernel,
    staysClosed_of_inTime referenceHost _ _ 0 ((Machine.Reach.init rfl).after closedRun)
      (by decide +kernel) (.since _ _ _ lateCalls)⟩

/-- `close()` is called, and resolves, while a reconnect attempt is connecting. -/
def overtakenRun : List Event :=
  providing ++ [.broken 0 true, .closed 0, .tick 200, .reconnectTimer, .close, .resumeClose 0]

theorem overtakenRun_comesBack : ¬ ∀ (s t : Bridge) (x : ℕ), (machine referenceHost).Reach always s →
    s.Resolved x → ((machine referenceHost).startingAt s).Reach always t →
    StaysClosed referenceHost s t := by
  intro hall
  have hback := hall _ _ 0 ((Machine.Reach.init rfl).after overtakenRun) (by decide +kernel)
    (.since _ _ _ [.opened 0, .resumeReplay 0])
  exact absurd hback.socket (by decide +kernel)

end Bridge

end UnoQ.Client
