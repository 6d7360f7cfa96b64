import UnoQ.Ssh.Routing

/-!
# Calls that wait for their device

A call of `connect` for a device that is not there sets a timer and queues up. Three parties take
it out again: the timer's own callback, the registration of the device and `close`. A run of the
server is followed here with the timers that are set, which nothing but `clearTimeout` keeps from
firing, and with what has befallen every waiter.
-/

namespace UnoQ.Ssh
open Transition

/-- The server with its timers, and what becomes of the waiters: `begun` are the calls that came to
wait and for whom, `fired` those whose timer has fired, `closed` those who began before a call of
`close`, `arrived` those whose device registered before either, with its entry. -/
structure Waiting where
  server : SshServer
  timers : List (String × PendingConnect)
  begun : List (ℕ × String)
  fired : List ℕ
  closed : List ℕ
  arrived : List (ℕ × RegistryEntry)

namespace Waiting

def initial : Waiting := ⟨.initial, [], [], [], [], []⟩

/-- The timer that `awaitDevice` sets. -/
def setTimeout (s : SshServer) : SshServer.Event → List (String × PendingConnect)
  | .connect nick =>
    match s.bound, s.config, s.registry.get nick with
    | true, some config, none => [(nick, ⟨s.nextWaiter, config.connectTimeoutMs⟩)]
    | _, _, _ => []
  | _ => []

/-- The waiters whose timers a step clears. -/
def clearTimeout (s : SshServer) : SshServer.Event → List PendingConnect
  | .request c name info =>
    match Routing.forwardOf s (.request c name info) with
    | some (nick, _) => (s.waiters.get nick).getD []
    | none => []
  | .close => if s.bound then (s.waiters.entries.map (·.2)).flatten else []
  | _ => []

/-- Waiters for the nickname with no outcome so far. -/
def stillWaiting (w : Waiting) (nick : String) : List ℕ :=
  (w.begun.filter fun b => b.2 = nick ∧ b.1 ∉ w.fired ∧ b.1 ∉ w.closed ∧
    b.1 ∉ w.arrived.map Prod.fst).map Prod.fst

def arrivals (w : Waiting) (e : SshServer.Event) (s : SshServer) : List (ℕ × RegistryEntry) :=
  match Routing.forwardOf w.server e with
  | some (nick, _) =>
    match s.registry.get nick with
    | some entry => (w.stillWaiting nick).map fun id => (id, entry)
    | none => []
  | none => []

def isClose : SshServer.Event → Bool
  | .close => true
  | _ => false

def disarm (timers : List (String × PendingConnect)) (ps : List PendingConnect) :
    List (String × PendingConnect) := timers.filter fun t => t.2 ∉ ps

def isTimer : SshServer.Event → Bool
  | .waitExpired _ _ => true
  | _ => false

def next (w : Waiting) (e : SshServer.Event) (s : SshServer) : Waiting where
  server := s
  timers := setTimeout w.server e ++ disarm w.timers (clearTimeout w.server e)
  begun := (setTimeout w.server e).map (fun t => (t.2.id, t.1)) ++ w.begun
  fired := w.fired
  closed := if isClose e then w.begun.map Prod.fst ++ w.closed else w.closed
  arrived := w.arrivals e s ++ w.arrived

/-- The callback looks for its waiter in the list, and rejects whether it is there or not. -/
def fire (w : Waiting) (nick : String) (p : PendingConnect) : Waiting :=
  { w with
    server := w.server.waitExpired nick p
    timers := disarm w.timers [p]
    fired := p.id :: w.fired }

inductive Event
  | server (e : SshServer.Event)
  | fire (nick : String) (p : PendingConnect)

def step (verify : Ed25519) (w : Waiting) : Event → Option Waiting
  | .server e => if isTimer e = true then none else (w.server.step verify e).map (w.next e)
  | .fire nick p => if (nick, p) ∈ w.timers then some (w.fire nick p) else none

def machine (verify : Ed25519) : Machine Waiting Event where
  init w := w = initial
  step := step verify

/-! ### What a step does to the queues -/

/-- Steps that neither set or clear a timer nor settle a call. The registry may lose entries. -/
structure Idle (s t : SshServer) : Prop where
  waiters : t.waiters = s.waiters
  settled : t.settled = s.settled
  nextWaiter : t.nextWaiter = s.nextWaiter
  registry : ∀ nick entry, t.registry.get nick = some entry → s.registry.get nick = some entry
  bound : t.bound = false → s.bound = false

theorem Idle.refl (s : SshServer) : Idle s s := ⟨rfl, rfl, rfl, fun _ _ h => h, fun h => h⟩

theorem idle_listen (s : SshServer) (config : SshServerConfig) : Idle s (s.listen config) := by
  unfold SshServer.listen
  split
  · exact Idle.refl s
  · exact { Idle.refl s with }

theorem idle_onAuthentication (verify : Ed25519) (s : SshServer) (c : ℕ) (nowMs : ℤ) (ctx : AuthContext) :
    Idle s (s.onAuthentication verify c nowMs ctx) := by
  unfold SshServer.onAuthentication
  dsimp only
  split
  · exact { Idle.refl s with }
  · exact { Idle.refl s with }

theorem idle_onClose (s : SshServer) (c : ℕ) : Idle s (s.onClose c) := by
  obtain ⟨registry, heq, hsub, -⟩ := Routing.onClose_cases s c
  rw [heq]
  exact { Idle.refl s with registry := hsub }

/-- What a step other than a timer's does. -/
inductive Effect (s : SshServer) (e : SshServer.Event) : SshServer → Prop
  | idle {t : SshServer} : Idle s t → setTimeout s e = [] → clearTimeout s e = [] →
      Routing.forwardOf s e = none → isClose e = false → Effect s e t
  | answered (outcome : WaitOutcome) : setTimeout s e = [] → clearTimeout s e = [] →
      Routing.forwardOf s e = none → isClose e = false →
      Effect s e { s with
        nextWaiter := s.nextWaiter + 1
        settled := s.settled ++ [(s.nextWaiter, outcome)] }
  | queued (nick : String) (timeoutMs : ℕ) : s.bound = true → s.registry.get nick = none →
      setTimeout s e = [(nick, ⟨s.nextWaiter, timeoutMs⟩)] → clearTimeout s e = [] →
      Routing.forwardOf s e = none → isClose e = false →
      Effect s e { s with
        nextWaiter := s.nextWaiter + 1
        waiters := s.waiters.set nick ((s.waiters.get nick).getD [] ++ [⟨s.nextWaiter, timeoutMs⟩]) }
  | installed (nick : String) (entry : RegistryEntry) : setTimeout s e = [] →
      clearTimeout s e = (s.waiters.get nick).getD [] →
      Routing.forwardOf s e = some (nick, entry.client) → isClose e = false →
      Effect s e (s.installEntry nick entry)
  | close : setTimeout s e = [] →
      clearTimeout s e = (if s.bound then (s.waiters.entries.map (·.2)).flatten else []) →
      Routing.forwardOf s e = none → isClose e = true → Effect s e s.close

theorem effect_connect (s : SshServer) (nick : String) :
    Effect s (.connect nick) (s.connect nick) := by
  unfold SshServer.connect
  dsimp only
  split
  next config hbound hconfig =>
    cases hget : s.registry.get nick with
    | some entry =>
      refine .answered (.device entry) ?_ rfl rfl rfl
      simp [setTimeout, hbound, hconfig, hget]
    | none =>
      refine .queued nick config.connectTimeoutMs hbound hget ?_ rfl rfl rfl
      simp [setTimeout, hbound, hconfig, hget]
  next hnot =>
    refine .answered _ ?_ rfl rfl rfl
    dsimp only [setTimeout]
    split
    next config hbound hconfig hget => exact absurd hconfig (hnot config hbound)
    · rfl

theorem effect_request (s : SshServer) (c : ℕ) (name : String) (info : Option (String × ℕ)) :
    Effect s (.request c name info) (s.onRequest c name info) := by
  rcases Routing.onRequest_cases s c name info with
    ⟨hnone, hsame⟩ | ⟨nick, addr, port, -, -, hforward, hinstall⟩
  · rw [hsame]
    refine .idle (Idle.refl s) rfl ?_ hnone rfl
    simp only [clearTimeout, hnone]
  · rw [hinstall]
    refine .installed nick ⟨c, addr, port⟩ rfl ?_ hforward rfl
    simp only [clearTimeout, hforward]

theorem effect_of_step {verify : Ed25519} {s t : SshServer} {e : SshServer.Event}
    (h : s.step verify e = some t) (he : ¬ isTimer e = true) : Effect s e t := by
  cases SshServer.effect_of_step h with
  | listen config => exact .idle (idle_listen s config) rfl rfl rfl rfl
  | bound => exact .idle { Idle.refl s with bound := fun hb => by contradiction } rfl rfl rfl rfl
  | bindFailed => exact .idle { Idle.refl s with } rfl rfl rfl rfl
  | connection => exact .idle { Idle.refl s with } rfl rfl rfl rfl
  | @authentication c nowMs ctx =>
    exact .idle (idle_onAuthentication verify s c nowMs ctx) rfl rfl rfl rfl
  | @request c name info => exact effect_request s c name info
  | @closed c => exact .idle (idle_onClose s c) rfl rfl rfl rfl
  | connect nick => exact effect_connect s nick
  | waitExpired => exact absurd rfl he
  | close => exact .close rfl rfl rfl rfl
  | serverClosed => exact .idle { Idle.refl s with } rfl rfl rfl rfl

end Waiting

end UnoQ.Ssh
