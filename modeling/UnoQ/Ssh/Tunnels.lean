import UnoQ.Ssh.Routing
import UnoQ.Transport.SshTransport

/-!
# Tunnels

`BridgeManager.buildTransportInstance` gives an SSH transport the function that calls
`SshServer.connect` for the device of its descriptor. Here the server runs together with all
transports built in this way. Who is at the other end of a transport is decided when the server asks
a client for a channel, and the transport keeps that channel until it closes, so what can be said of
the bytes of a transport is whom its channels were asked of.
-/

namespace UnoQ.Ssh
open BigEndian Transition Transport

/-- What a call of `forwardOut` was: the client it asked, and the server as it found it. -/
structure Channel where
  client : ℕ
  asked : Routing

/-- A transport with the calls of `SshServer.connect` that its calls of `connect` have made. -/
structure Tunnel where
  deviceNick : String
  transport : SshTransport
  calls : ℕ → Option ℕ

structure Tunnels where
  routing : Routing
  tunnels : ℕ → Tunnel
  nextTunnel : ℕ
  channels : ℕ → Option Channel

namespace Tunnels

def initial : Tunnels :=
  ⟨.initial, fun _ => ⟨"", .initial, fun _ => none⟩, 0, fun _ => none⟩

def setTunnel (s : Tunnels) (i : ℕ) (x : Tunnel) : Tunnels :=
  { s with tunnels := Function.update s.tunnels i x }

/-- `build`: the end of `buildTransportInstance`, whose `listen` is a step of the server. `opened` and
`refused` are what comes of a channel or, for the latter, of the wait for the device. -/
inductive Event
  | server (e : SshServer.Event)
  | build (deviceNick : String)
  | connect (i : ℕ)
  | forwardOut (w : ℕ) (entry : RegistryEntry)
  | opened (i k : ℕ)
  | refused (i k : ℕ) (message : String)
  | transport (i : ℕ) (e : SshTransport.Event)

def build (s : Tunnels) (deviceNick : String) : Tunnels :=
  { s.setTunnel s.nextTunnel ⟨deviceNick, .initial, fun _ => none⟩ with nextTunnel := s.nextTunnel + 1 }

/-- `connect` of a transport calls `SshServer.connect` at once. -/
def connect (s : Tunnels) (i : ℕ) (routing : Routing) : Tunnels :=
  let x := s.tunnels i
  { s.setTunnel i ⟨x.deviceNick, x.transport.apply .connect,
      Function.update x.calls x.transport.streams.next (some s.routing.server.nextWaiter)⟩ with
    routing := routing }

def move (s : Tunnels) (i : ℕ) (e : SshTransport.Event) : Option Tunnels :=
  (SshTransport.machine.step (s.tunnels i).transport e).map fun t =>
    s.setTunnel i { s.tunnels i with transport := t }

/-- Whether the promise that the transport waits for can be fulfilled. -/
def granted (s : Tunnels) (i k : ℕ) : Bool :=
  (((s.tunnels i).calls k).bind s.channels).isSome

def denied (s : Tunnels) (i k : ℕ) (message : String) : Bool :=
  ((s.tunnels i).calls k).any fun w =>
    decide ((w, .failed message) ∈ s.routing.server.settled) || (s.channels w).isSome

/-- Events of a transport that the server has no part in. -/
def own : SshTransport.Event → Bool
  | .connect | .acquired _ | .unavailable _ _ => false
  | _ => true

def step (verify : Ed25519) (s : Tunnels) : Event → Option Tunnels
  | .server e => (s.routing.step verify (.server e)).map fun r => { s with routing := r }
  | .build nick => some (s.build nick)
  | .connect i =>
    if i < s.nextTunnel then
      (s.routing.step verify (.server (.connect (s.tunnels i).deviceNick))).map (s.connect i)
    else none
  | .forwardOut w entry =>
    (s.routing.step verify (.forwardOut w entry)).map fun r =>
      { s with routing := r, channels := Function.update s.channels w (some ⟨entry.client, s.routing⟩) }
  | .opened i k => if s.granted i k then s.move i (.acquired k) else none
  | .refused i k message => if s.denied i k message then s.move i (.unavailable k message) else none
  | .transport i e => if own e then s.move i e else none

def machine (verify : Ed25519) : Machine Tunnels Event where
  init s := s = initial
  step := step verify

/-- The channel that a stream of a transport is. -/
def channelOf (s : Tunnels) (i k : ℕ) : Option Channel := ((s.tunnels i).calls k).bind s.channels

/-- What a step does. -/
inductive Turns (verify : Ed25519) (s : Tunnels) : Tunnels → Prop
  | server {e : SshServer.Event} {r : Routing}
    (hr : (Routing.machine verify).step s.routing (.server e) = some r) :
    Turns verify s { s with routing := r }
  | build (nick : String) : Turns verify s (s.build nick)
  | connect {i : ℕ} {r : Routing} (hi : i < s.nextTunnel)
    (hr : (Routing.machine verify).step s.routing
      (.server (.connect (s.tunnels i).deviceNick)) = some r) :
    Turns verify s (s.connect i r)
  | forwardOut {w : ℕ} {entry : RegistryEntry} {r : Routing}
    (hr : (Routing.machine verify).step s.routing (.forwardOut w entry) = some r) :
    Turns verify s { s with
      routing := r
      channels := Function.update s.channels w (some ⟨entry.client, s.routing⟩) }
  | move {i : ℕ} {e : SshTransport.Event} {t : SshTransport} (hconnect : e ≠ .connect)
    (hgranted : ∀ k, e = .acquired k → s.granted i k = true)
    (hstep : SshTransport.machine.step (s.tunnels i).transport e = some t) :
    Turns verify s (s.setTunnel i { s.tunnels i with transport := t })

theorem turns_of_step {verify : Ed25519} {s t : Tunnels} {e : Event}
    (h : (machine verify).step s e = some t) : Turns verify s t := by
  change step verify s e = some t at h
  cases e with
  | server e =>
    obtain ⟨r, hr, rfl⟩ := Option.map_eq_some_iff.mp h
    exact .server hr
  | build nick =>
    cases h
    exact .build nick
  | connect i =>
    simp only [step] at h
    split at h
    next hi =>
      obtain ⟨r, hr, rfl⟩ := Option.map_eq_some_iff.mp h
      exact .connect hi hr
    next => contradiction
  | forwardOut w entry =>
    obtain ⟨r, hr, rfl⟩ := Option.map_eq_some_iff.mp h
    exact .forwardOut hr
  | opened i k =>
    simp only [step] at h
    split at h
    next hgranted =>
      obtain ⟨x, hx, rfl⟩ := Option.map_eq_some_iff.mp h
      refine .move (by simp) ?_ hx
      intro k' hk'
      cases hk'
      exact hgranted
    next => contradiction
  | refused i k message =>
    simp only [step] at h
    split at h
    next =>
      obtain ⟨x, hx, rfl⟩ := Option.map_eq_some_iff.mp h
      exact .move (by simp) (by simp) hx
    next => contradiction
  | transport i e =>
    simp only [step] at h
    split at h
    next hown =>
      obtain ⟨x, hx, rfl⟩ := Option.map_eq_some_iff.mp h
      refine .move ?_ ?_ hx
      · rintro rfl
        contradiction
      · rintro k rfl
        contradiction
    next => contradiction

/-! ### The calls of `connect` keep their numbers and nicknames -/

theorem nextWaiter_of_step {verify : Ed25519} {s t : SshServer} {e : SshServer.Event}
    (hs : s.step verify e = some t) :
    t.nextWaiter = s.nextWaiter ∨ (∃ nick, e = .connect nick) ∧ t.nextWaiter = s.nextWaiter + 1 := by
  cases SshServer.effect_of_step hs with
  | listen config =>
    left
    unfold SshServer.listen
    split
    · rfl
    · rfl
  | authentication nowMs ctx =>
    left
    unfold SshServer.onAuthentication
    dsimp only
    split
    · rfl
    · rfl
  | @request c name info =>
    left
    rcases Routing.onRequest_cases s c name info with ⟨-, hsame⟩ | ⟨nick, addr, port, -, -, -, hinst⟩
    · rw [hsame]
    · rw [hinst]
      rfl
  | @closed c =>
    left
    obtain ⟨registry, heq, -⟩ := Routing.onClose_cases s c
    rw [heq]
  | connect nick =>
    right
    refine ⟨⟨nick, rfl⟩, ?_⟩
    unfold SshServer.connect
    dsimp only
    split
    · split
      · rfl
      · rfl
    · rfl
  | close =>
    left
    unfold SshServer.close
    split
    · rfl
    · rfl
  | bound => exact .inl rfl
  | bindFailed => exact .inl rfl
  | connection => exact .inl rfl
  | waitExpired => exact .inl rfl
  | serverClosed => exact .inl rfl

/-- Calls are numbered as they come, and what an earlier one was called with stays. -/
theorem callers_of_step {verify : Ed25519} {r t : Routing} {e : Routing.Event}
    (hs : (Routing.machine verify).step r e = some t) {w : ℕ} (hw : w < r.server.nextWaiter) :
    w < t.server.nextWaiter ∧ t.callers w = r.callers w := by
  rcases Routing.step_cases hs with ⟨x, s, rfl, -, hstep, rfl⟩ | ⟨_, entry, -, -, rfl⟩
  · have hle : r.server.nextWaiter ≤ s.nextWaiter := by
      rcases nextWaiter_of_step hstep with hsame | ⟨-, hmore⟩
      · exact Nat.le_of_eq hsame.symm
      · rw [hmore]
        exact Nat.le_succ _
    refine ⟨Nat.lt_of_lt_of_le hw hle, ?_⟩
    cases x with
    | connect nick => exact Function.update_of_ne (Nat.ne_of_lt hw) _ _
    | _ => rfl
  · exact ⟨hw, rfl⟩

theorem callers_of_connect {verify : Ed25519} {r t : Routing} {nick : String}
    (hs : (Routing.machine verify).step r (.server (.connect nick)) = some t) :
    r.server.nextWaiter < t.server.nextWaiter ∧ t.callers r.server.nextWaiter = nick := by
  rcases Routing.step_cases hs with ⟨x, s, hx, -, hstep, rfl⟩ | ⟨w, entry, hx, -⟩
  · cases hx
    refine ⟨?_, Function.update_self _ _ _⟩
    cases SshServer.effect_of_step hstep with
    | connect =>
      change r.server.nextWaiter < (r.server.connect nick).nextWaiter
      unfold SshServer.connect
      dsimp only
      split
      · split
        · exact Nat.lt_succ_self _
        · exact Nat.lt_succ_self _
      · exact Nat.lt_succ_self _
  · contradiction

/-- Whoever is asked for a channel bears the nickname of the call by right. -/
theorem asked_of_forwardOut {verify : Ed25519} {r t : Routing} {w : ℕ} {entry : RegistryEntry}
    (h : (Routing.machine verify).Reach always r)
    (hs : (Routing.machine verify).step r (.forwardOut w entry) = some t) :
    w < r.server.nextWaiter ∧ r.Faithful verify (r.callers w) entry.client := by
  have hinv := Routing.inv_reach h
  rcases Routing.step_cases hs with ⟨x, s, hx, -⟩ | ⟨w', entry', hx, hmem, -⟩
  · contradiction
  · cases hx
    exact ⟨hinv.born _ (Routing.mem_resolved.mp hmem).1, (hinv.resolved w entry hmem).faithful h⟩

/-! ### A stream comes up only when it is acquired -/

theorem resolved_of_set {u : Streams} {k x : ℕ} {y : Stream}
    (h : ((u.set k y).streams x).promise = .resolved)
    (hy : y.promise = .resolved → (u.streams k).promise = .resolved) :
    (u.streams x).promise = .resolved := by
  rw [Streams.set_streams] at h
  split at h
  next hx => exact hx ▸ hy h
  next => exact h

theorem resolved_of_apply {s : SshTransport} {e : SshTransport.Event} {k : ℕ}
    (h : ((s.apply e).streams.streams k).promise = .resolved) :
    (s.streams.streams k).promise = .resolved ∨ e = .acquired k := by
  cases e with
  | connect => exact .inl (resolved_of_set h (by simp [Stream.dialed]))
  | acquired x =>
    change ((s.streams.set x _).streams k).promise = .resolved at h
    rw [Streams.set_streams] at h
    split at h
    next hk => exact .inr (hk ▸ rfl)
    next => exact .inl h
  | unavailable x message => exact .inl (resolved_of_set h (by simp))
  | data x chunk => exact .inl h
  | error x message => exact .inl (resolved_of_set h fun hy => hy)
  | closed x => exact .inl (resolved_of_set h fun hy => hy)
  | broken x destroyed => exact .inl (resolved_of_set h fun hy => hy)
  | write bytes =>
    left
    simp only [SshTransport.apply, Streams.write] at h
    split at h
    · exact h
    · split at h
      · exact h
      · split at h
        · exact resolved_of_set h fun hy => hy
        · exact h
  | close =>
    left
    simp only [SshTransport.apply, Streams.close] at h
    split at h
    · exact h
    · split at h
      · exact h
      · exact resolved_of_set h fun hy => hy

/-! ### Who is at the other end -/

structure Inv (verify : Ed25519) (s : Tunnels) : Prop where
  routing : (Routing.machine verify).Reach always s.routing
  streams : ∀ i, (s.tunnels i).transport.streams.Inv
  calls : ∀ i k w, (s.tunnels i).calls k = some w →
    w < s.routing.server.nextWaiter ∧ s.routing.callers w = (s.tunnels i).deviceNick
  distinct : ∀ i k j l w, (s.tunnels i).calls k = some w → (s.tunnels j).calls l = some w → i = j ∧ k = l
  came : ∀ i k, ((s.tunnels i).transport.streams.streams k).promise = .resolved →
    (s.channelOf i k).isSome = true
  asked : ∀ w ch, s.channels w = some ch →
    w < s.routing.server.nextWaiter ∧ ch.asked.Faithful verify (s.routing.callers w) ch.client

theorem inv_initial (verify : Ed25519) : Inv verify initial where
  routing := .init rfl
  streams _ := Streams.inv_initial
  calls _ _ _ h := by contradiction
  distinct _ _ _ _ _ h := by contradiction
  came _ _ h := by contradiction
  asked _ _ h := by contradiction

@[simp] theorem setTunnel_tunnels (s : Tunnels) (i j : ℕ) (x : Tunnel) :
    (s.setTunnel i x).tunnels j = if j = i then x else s.tunnels j :=
  Function.update_apply s.tunnels i x j

/-- What the server does by itself changes nothing for the transports. -/
theorem inv_routing {verify : Ed25519} {s : Tunnels} {r : Routing} {e : Routing.Event}
    (h : Inv verify s) (hr : (Routing.machine verify).step s.routing e = some r) :
    Inv verify { s with routing := r } where
  routing := h.routing.step hr trivial
  streams := h.streams
  calls i k w hw := by
    obtain ⟨hlt, hnick⟩ := h.calls i k w hw
    obtain ⟨hlt', hsame⟩ := callers_of_step hr hlt
    exact ⟨hlt', hsame.trans hnick⟩
  distinct := h.distinct
  came := h.came
  asked w ch hch := by
    obtain ⟨hlt, hfaithful⟩ := h.asked w ch hch
    obtain ⟨hlt', hsame⟩ := callers_of_step hr hlt
    refine ⟨hlt', ?_⟩
    change ch.asked.Faithful verify (r.callers w) ch.client
    rw [hsame]
    exact hfaithful

/-- A transport is new, or moves on with the calls it has made. -/
theorem inv_setTunnel {verify : Ed25519} {s : Tunnels} {i : ℕ} {x : Tunnel} (h : Inv verify s)
    (hstreams : x.transport.streams.Inv)
    (hcalls : ∀ k w, x.calls k = some w →
      (s.tunnels i).calls k = some w ∧ x.deviceNick = (s.tunnels i).deviceNick)
    (hcame : ∀ k, (x.transport.streams.streams k).promise = .resolved →
      ((x.calls k).bind s.channels).isSome = true) :
    Inv verify (s.setTunnel i x) := by
  have hold : ∀ j k w, ((s.setTunnel i x).tunnels j).calls k = some w →
      (s.tunnels j).calls k = some w ∧ ((s.setTunnel i x).tunnels j).deviceNick = (s.tunnels j).deviceNick := by
    intro j k w hw
    rw [setTunnel_tunnels] at hw ⊢
    split at hw
    next hj =>
      rw [if_pos hj, hj]
      exact hcalls k w hw
    next hj =>
      rw [if_neg hj]
      exact ⟨hw, rfl⟩
  refine ⟨h.routing, ?_, ?_, ?_, ?_, h.asked⟩
  · intro j
    rw [setTunnel_tunnels]
    split
    · exact hstreams
    · exact h.streams j
  · intro j k w hw
    obtain ⟨hbefore, hnick⟩ := hold j k w hw
    rw [hnick]
    exact h.calls j k w hbefore
  · intro j k j' k' w hw hw'
    exact h.distinct j k j' k' w (hold j k w hw).1 (hold j' k' w hw').1
  · intro j k hk
    unfold channelOf
    rw [setTunnel_tunnels] at hk ⊢
    split at hk
    next hj =>
      rw [if_pos hj]
      exact hcame k hk
    next hj =>
      rw [if_neg hj]
      exact h.came j k hk

theorem inv_build {verify : Ed25519} {s : Tunnels} (h : Inv verify s) (nick : String) :
    Inv verify (s.build nick) := by
  have hset : Inv verify (s.setTunnel s.nextTunnel ⟨nick, .initial, fun _ => none⟩) :=
    inv_setTunnel h Streams.inv_initial (fun _ _ hw => by contradiction) fun _ hk => by contradiction
  exact ⟨hset.routing, hset.streams, hset.calls, hset.distinct, hset.came, hset.asked⟩

theorem inv_move {verify : Ed25519} {s : Tunnels} {i : ℕ} {e : SshTransport.Event} {t : SshTransport}
    (h : Inv verify s) (hgranted : ∀ k, e = .acquired k → s.granted i k = true)
    (hstep : SshTransport.machine.step (s.tunnels i).transport e = some t) :
    Inv verify (s.setTunnel i { s.tunnels i with transport := t }) := by
  refine inv_setTunnel h (Streams.inv_act (h.streams i) (SshTransport.act_step hstep))
    (fun k w hw => ⟨hw, rfl⟩) ?_
  intro k hk
  obtain ⟨-, rfl⟩ := Machine.ofEnabled_step.mp hstep
  rcases resolved_of_apply hk with hbefore | rfl
  · exact h.came i k hbefore
  · exact hgranted k rfl

theorem inv_connect {verify : Ed25519} {s : Tunnels} {i : ℕ} {r : Routing} (h : Inv verify s)
    (hr : (Routing.machine verify).step s.routing
      (.server (.connect (s.tunnels i).deviceNick)) = some r) :
    Inv verify (s.connect i r) := by
  have hserver := inv_routing h hr
  obtain ⟨hlt, hnick⟩ := callers_of_connect hr
  have hsame : ∀ j, ((s.connect i r).tunnels j).deviceNick = (s.tunnels j).deviceNick := by
    intro j
    simp only [connect, setTunnel_tunnels]
    split
    next hj => rw [hj]
    next => rfl
  -- The one call that is new, and the calls that were there before.
  have hcall : ∀ j k w, ((s.connect i r).tunnels j).calls k = some w →
      (s.tunnels j).calls k = some w ∨
        j = i ∧ k = (s.tunnels i).transport.streams.next ∧ w = s.routing.server.nextWaiter := by
    intro j k w hw
    simp only [connect, setTunnel_tunnels] at hw
    split at hw
    next hj =>
      dsimp only at hw
      rw [Function.update_apply] at hw
      split at hw
      next hk =>
        cases hw
        exact .inr ⟨hj, hk, rfl⟩
      next =>
        rw [hj]
        exact .inl hw
    next => exact .inl hw
  have hnew : ∀ j k w, (s.tunnels j).calls k = some w → w ≠ s.routing.server.nextWaiter :=
    fun j k w hw => Nat.ne_of_lt (h.calls j k w hw).1
  refine ⟨hserver.routing, ?_, ?_, ?_, ?_, hserver.asked⟩
  · intro j
    simp only [connect, setTunnel_tunnels]
    split
    · exact Streams.inv_begin (h.streams i)
    · exact h.streams j
  · intro j k w hw
    rw [hsame]
    rcases hcall j k w hw with hbefore | ⟨rfl, -, rfl⟩
    · exact hserver.calls j k w hbefore
    · exact ⟨hlt, hnick⟩
  · intro j k j' k' w hw hw'
    rcases hcall j k w hw with hbefore | ⟨rfl, rfl, rfl⟩
    · rcases hcall j' k' w hw' with hbefore' | ⟨-, -, rfl⟩
      · exact h.distinct j k j' k' w hbefore hbefore'
      · exact absurd rfl (hnew j k _ hbefore)
    · rcases hcall j' k' _ hw' with hbefore' | ⟨rfl, rfl, -⟩
      · exact absurd rfl (hnew j' k' _ hbefore')
      · exact ⟨rfl, rfl⟩
  · intro j k hk
    unfold channelOf
    simp only [connect, setTunnel_tunnels] at hk ⊢
    split at hk
    next hj =>
      rcases resolved_of_apply (e := .connect) hk with hbefore | hfalse
      · have hne : k ≠ (s.tunnels i).transport.streams.next := by
          rintro rfl
          exact absurd ((h.streams i).lt (by simp [hbefore])) (Nat.lt_irrefl _)
        rw [if_pos hj]
        dsimp only
        rw [Function.update_of_ne hne]
        exact h.came i k hbefore
      · contradiction
    next hj =>
      rw [if_neg hj]
      exact h.came j k hk

theorem inv_forwardOut {verify : Ed25519} {s : Tunnels} {w : ℕ} {entry : RegistryEntry} {r : Routing}
    (h : Inv verify s) (hr : (Routing.machine verify).step s.routing (.forwardOut w entry) = some r) :
    Inv verify { s with
      routing := r
      channels := Function.update s.channels w (some ⟨entry.client, s.routing⟩) } := by
  have hserver := inv_routing h hr
  obtain ⟨hborn, hfaithful⟩ := asked_of_forwardOut h.routing hr
  obtain ⟨hlt, hsame⟩ := callers_of_step hr hborn
  refine ⟨hserver.routing, h.streams, hserver.calls, h.distinct, ?_, ?_⟩
  · intro i k hk
    have hcame := h.came i k hk
    unfold channelOf at hcame ⊢
    dsimp only
    cases hcall : (s.tunnels i).calls k with
    | none =>
      rw [hcall] at hcame
      contradiction
    | some x =>
      rw [hcall, Option.bind_some] at hcame
      rw [Option.bind_some, Function.update_apply]
      split
      · rfl
      · exact hcame
  · intro x ch hch
    dsimp only at hch ⊢
    rw [Function.update_apply] at hch
    split at hch
    next hx =>
      cases hch
      rw [hx, hsame]
      exact ⟨hlt, hfaithful⟩
    next => exact hserver.asked x ch hch

theorem inv_reach {verify : Ed25519} {s : Tunnels} (h : (machine verify).Reach always s) :
    Inv verify s := by
  refine h.invariant (P := Inv verify) ?_ ?_
  · rintro _ rfl
    exact inv_initial verify
  · intro s e t _ hi hs _
    cases turns_of_step hs with
    | server hr => exact inv_routing hi hr
    | build nick => exact inv_build hi nick
    | connect hlt hr => exact inv_connect hi hr
    | forwardOut hr => exact inv_forwardOut hi hr
    | move hconnect hgranted hstep => exact inv_move hi hgranted hstep

/-- A stream that the transport has written to or heard of. -/
def Used (s : Tunnels) (i k : ℕ) : Prop :=
  (∃ bytes, (k, bytes) ∈ (s.tunnels i).transport.streams.sent) ∨
    ∃ e, (k, e) ∈ (s.tunnels i).transport.streams.emitted

theorem resolved_of_used {u : Streams} (h : u.Inv) {k : ℕ}
    (hk : (∃ bytes, (k, bytes) ∈ u.sent) ∨ ∃ e, (k, e) ∈ u.emitted) :
    (u.streams k).promise = .resolved := by
  rcases hk with ⟨bytes, hsent⟩ | ⟨e, hheard⟩
  · exact (h.mem k).mp (h.sent _ hsent)
  · by_contra hne
    have hnone := h.silent k hne
    have hin : e ∈ u.eventsOf k :=
      List.mem_map.mpr ⟨(k, e), List.mem_filter.mpr ⟨hheard, by simp⟩, rfl⟩
    rw [hnone] at hin
    contradiction

/-- Over every run: what a transport has written went to, and what it has heard came from, a channel of
a client accepted with a certificate for the transport's own device, which at that time was connected
and the last to have asked for a forward under its name. No channel serves two streams. -/
theorem tunnels_faithful (verify : Ed25519) (s : Tunnels) (h : (machine verify).Reach always s) :
    (∀ i k, s.Used i k → ∃ ch, s.channelOf i k = some ch ∧
      ch.asked.Faithful verify (s.tunnels i).deviceNick ch.client) ∧
    ∀ i k j l w, (s.tunnels i).calls k = some w → (s.tunnels j).calls l = some w → i = j ∧ k = l := by
  have hinv := inv_reach h
  refine ⟨?_, hinv.distinct⟩
  intro i k hused
  have hcame := hinv.came i k (resolved_of_used (hinv.streams i) hused)
  obtain ⟨ch, hch⟩ := Option.isSome_iff_exists.mp hcame
  refine ⟨ch, hch, ?_⟩
  obtain ⟨w, hcall, hchannel⟩ := Option.bind_eq_some_iff.mp hch
  have hasked := (hinv.asked w ch hchannel).2
  rw [(hinv.calls i k w hcall).2] at hasked
  exact hasked

/-- The device comes back on a second connection, and the transport dials it again. -/
def redialedRun : List Event :=
  (SshServer.sampleRun.map .server) ++ [.build "q1", .connect 0,
    .forwardOut 0 ⟨0, "127.0.0.1", 7000⟩, .opened 0 0, .transport 0 (.write [0x94]),
    .server .connection, .server (.authentication 1 1700000000000 SshServer.copiedCertificate),
    .server (.request 1 "tcpip-forward" none), .transport 0 (.closed 0), .connect 0,
    .forwardOut 1 ⟨1, "127.0.0.1", 0⟩, .opened 0 1, .transport 0 (.data 1 [0x94])]

def redialed : Tunnels := (machine SshServer.caOnly).after always initial redialedRun

theorem redialed_faithful :
    ((redialed.channelOf 0 0).map (·.client), (redialed.channelOf 0 1).map (·.client)) =
        (some 0, some 1) ∧
      ∃ ch, redialed.channelOf 0 1 = some ch ∧ ch.asked.Faithful SshServer.caOnly "q1" ch.client := by
  have hrun : (machine SshServer.caOnly).Reach always redialed := (Machine.Reach.init rfl).after _
  have hheard : redialed.Used 0 1 := .inr ⟨.data [0x94], by decide +kernel⟩
  have hnick : (redialed.tunnels 0).deviceNick = "q1" := by decide +kernel
  obtain ⟨ch, hch, hfaithful⟩ := (tunnels_faithful SshServer.caOnly redialed hrun).1 0 1 hheard
  rw [hnick] at hfaithful
  exact ⟨by decide +kernel, ch, hch, hfaithful⟩

end Tunnels

end UnoQ.Ssh
