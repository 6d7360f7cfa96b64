import Mathlib.Data.Int.Notation
import Mathlib.Logic.Function.Basic
import UnoQ.Codec.Rpc

/-!
# The link to the router

The transport below a bridge, and the reconnect timer. A connection that is `destroyed`
or `ended` can no longer be written to; its 'close' comes later. The transport refers
to at most one connection, the one it opened last.
-/

namespace UnoQ.Client
open Codec

/-- A timer set for less than 1 ms, or for more than 31 bits hold, runs for 1 ms. -/
def setTimeoutDelay (ms : ℤ) : ℤ := if 1 ≤ ms ∧ ms ≤ 0x7fffffff then ms else 1

structure ReconnectOptions where
  enabled : Bool
  baseDelayMs : ℤ
  maxDelayMs : ℤ

inductive ConnStatus
  | absent
  | opened
  | closed
  deriving DecidableEq

structure Conn where
  status : ConnStatus
  destroyed : Bool
  ended : Bool
  deriving DecidableEq

/-- Who wrote a RESPONSE: a settled handler, `handleMessage` for want of one, or `close`. -/
inductive Author
  | handler (task : ℕ)
  | unregistered
  | closing
  deriving DecidableEq

/-- A frame on a connection; `response` is the id it answers and who wrote it. -/
structure Frame where
  conn : ℕ
  message : JsValue
  response : Option (MapKey × Author)

/-- `dialing` holds the reconnect attempts whose `transport.connect()` is in progress. -/
structure Link where
  conns : ℕ → Conn
  nextConn : ℕ
  socket : Option ℕ
  dialing : List ℕ
  reconnectTimer : Option ℤ
  reconnectAttempt : ℕ
  closedByUs : Bool
  sent : List Frame

namespace Link

def setConn (l : Link) (c : ℕ) (conn : Conn) : Link :=
  { l with conns := Function.update l.conns c conn }

def writable (l : Link) : Option ℕ :=
  match l.socket with
  | none => none
  | some c => if (l.conns c).destroyed ∨ (l.conns c).ended then none else some c

def write (l : Link) (message : JsValue) (response : Option (MapKey × Author)) : Link :=
  match l.writable with
  | none => l
  | some c => { l with sent := l.sent ++ [⟨c, message, response⟩] }

def send (mp : Msgpack) (l : Link) (message : JsValue) (response : Option (MapKey × Author)) : Link :=
  if (mp.encode message).isSome then l.write message response else l

/-- `transport.close()`: ends the connection, or forgets one that is destroyed. -/
def close (l : Link) : Link :=
  match l.socket with
  | none => l
  | some c =>
    if (l.conns c).destroyed then { l with socket := none }
    else l.setConn c { l.conns c with ended := true }

def scheduleReconnect (options : ReconnectOptions) (now : ℤ) (l : Link) : Link :=
  if l.reconnectTimer.isSome ∨ l.closedByUs then l
  else
    let delay := min (options.baseDelayMs * 2 ^ l.reconnectAttempt) options.maxDelayMs
    { l with reconnectTimer := some (now + setTimeoutDelay delay), reconnectAttempt := l.reconnectAttempt + 1 }

def doReconnect (l : Link) (r : ℕ) : Link :=
  { l with reconnectTimer := none, dialing := if l.closedByUs then l.dialing else r :: l.dialing }

/-- The `connect()` of reconnect attempt `r` resolves with a new connection. -/
def opened (l : Link) (r : ℕ) : Link :=
  { l with
    conns := Function.update l.conns l.nextConn ⟨.opened, false, false⟩
    nextConn := l.nextConn + 1
    socket := some l.nextConn
    dialing := l.dialing.erase r }

/-- The `catch` of `doReconnect`, which comes to schedule the next attempt when its 'error' event has
a listener. It does not look whether there is a connection. -/
def caught (options : ReconnectOptions) (now : ℤ) (l : Link) (listener : Bool) : Link :=
  if listener ∧ l.closedByUs = false then l.scheduleReconnect options now else l

/-- The `connect()` of `r` rejects. -/
def refused (options : ReconnectOptions) (now : ℤ) (l : Link) (r : ℕ) (listener : Bool) : Link :=
  { l with dialing := l.dialing.erase r }.caught options now listener

/-- A connection's 'close' event, up to what `onTransportClose` does about reconnecting. -/
def closed (options : ReconnectOptions) (now : ℤ) (l : Link) (c : ℕ) : Link :=
  let l := { l.setConn c { l.conns c with status := .closed } with
    socket := if l.socket = some c then none else l.socket }
  if options.enabled ∧ l.closedByUs = false then l.scheduleReconnect options now else l

def broken (l : Link) (c : ℕ) (destroyed : Bool) : Link :=
  l.setConn c { l.conns c with
    destroyed := (l.conns c).destroyed || destroyed
    ended := (l.conns c).ended || !destroyed }

def initial : Link where
  conns c := if c = 0 then ⟨.opened, false, false⟩ else ⟨.absent, false, false⟩
  nextConn := 1
  socket := some 0
  dialing := []
  reconnectTimer := none
  reconnectAttempt := 0
  closedByUs := false
  sent := []

/-! ### Connections -/

def IsOpen (l : Link) (c : ℕ) : Prop := (l.conns c).status = .opened

instance (l : Link) (c : ℕ) : Decidable (l.IsOpen c) :=
  inferInstanceAs (Decidable ((l.conns c).status = .opened))

def NoneOpen (l : Link) : Prop := ∀ c < l.nextConn, ¬ l.IsOpen c

instance (l : Link) : Decidable l.NoneOpen :=
  inferInstanceAs (Decidable (∀ c < l.nextConn, ¬ l.IsOpen c))

structure Inv (l : Link) : Prop where
  unborn : ∀ c, l.nextConn ≤ c → (l.conns c).status = .absent
  socket : ∀ c, l.socket = some c → l.IsOpen c
  frames : ∀ f ∈ l.sent, f.conn < l.nextConn

/-- One connection at most is open, and the transport refers to it until it is destroyed. -/
structure Single (l : Link) : Prop where
  single : ∀ c d, l.IsOpen c → l.IsOpen d → c = d
  current : ∀ c, l.IsOpen c → (l.conns c).destroyed = false → l.socket = some c

/-- A connection, an attempt or the timer, and not two of them. -/
structure Lone (l : Link) : Prop where
  alone : ∀ c, l.IsOpen c → l.dialing = [] ∧ l.reconnectTimer = none
  armed : l.reconnectTimer ≠ none → l.dialing = []
  dials : l.dialing.length ≤ 1

theorem inv_initial : initial.Inv where
  unborn := by
    intro c hc
    have hc' : 1 ≤ c := hc
    have hne : c ≠ 0 := by omega
    simp [initial, hne]
  socket := by
    intro c hc
    cases hc
    rfl
  frames := by simp [initial]

theorem open_initial {c : ℕ} (hc : initial.IsOpen c) : c = 0 := by
  simp only [IsOpen, initial] at hc
  split at hc
  next h => exact h
  next => contradiction

theorem single_initial : initial.Single where
  single := fun c d hc hd => (open_initial hc).trans (open_initial hd).symm
  current := fun c hc _ => by rw [open_initial hc]; rfl

theorem lone_initial : initial.Lone where
  alone := fun _ _ => ⟨rfl, rfl⟩
  armed := fun _ => rfl
  dials := Nat.zero_le 1

theorem Inv.lt_nextConn {l : Link} (h : l.Inv) {c : ℕ} (hc : l.IsOpen c) : c < l.nextConn := by
  by_contra hge
  have habs := h.unborn c (Nat.le_of_not_lt hge)
  rw [IsOpen, habs] at hc
  contradiction

theorem Inv.noneOpen_iff {l : Link} (h : l.Inv) : l.NoneOpen ↔ ∀ c, ¬ l.IsOpen c :=
  ⟨fun hn c hc => hn c (h.lt_nextConn hc) hc, fun hn c _ => hn c⟩

theorem writable_socket {l : Link} {c : ℕ} (h : l.writable = some c) :
    l.socket = some c ∧ (l.conns c).destroyed = false ∧ (l.conns c).ended = false := by
  unfold writable at h
  split at h
  next => contradiction
  next d hd =>
    split at h
    next => contradiction
    next hn =>
      cases h
      rw [not_or, Bool.not_eq_true, Bool.not_eq_true] at hn
      exact ⟨hd, hn⟩

theorem writable_eq {l : Link} {c : ℕ} (hs : l.socket = some c)
    (hd : (l.conns c).destroyed = false) (he : (l.conns c).ended = false) : l.writable = some c := by
  simp [writable, hs, hd, he]

theorem setConn_conns (l : Link) (c x : ℕ) (conn : Conn) :
    (l.setConn c conn).conns x = if x = c then conn else l.conns x :=
  Function.update_apply l.conns c conn x

theorem write_cases (l : Link) (message : JsValue) (response : Option (MapKey × Author)) :
    (l.writable = none ∧ l.write message response = l) ∨ ∃ c, l.writable = some c ∧
      l.write message response = { l with sent := l.sent ++ [⟨c, message, response⟩] } := by
  unfold write
  cases h : l.writable with
  | none => exact Or.inl ⟨rfl, rfl⟩
  | some c => exact Or.inr ⟨c, rfl, rfl⟩

theorem send_cases (mp : Msgpack) (l : Link) (message : JsValue)
    (response : Option (MapKey × Author)) :
    l.send mp message response = l ∨ ∃ c, l.writable = some c ∧
      l.send mp message response = { l with sent := l.sent ++ [⟨c, message, response⟩] } := by
  unfold send
  split
  · rcases l.write_cases message response with ⟨-, h⟩ | h
    · exact Or.inl h
    · exact Or.inr h
  · exact Or.inl rfl

/-- Frames may have been sent, and nothing else happened. -/
def Sends (l m : Link) : Prop := ∃ more, m = { l with sent := l.sent ++ more }

theorem sends_refl (l : Link) : l.Sends l := ⟨[], by rw [List.append_nil]⟩

theorem Sends.trans {l m n : Link} (h : l.Sends m) (h' : m.Sends n) : l.Sends n := by
  obtain ⟨more, rfl⟩ := h
  obtain ⟨more', rfl⟩ := h'
  exact ⟨more ++ more', by simp [List.append_assoc]⟩

theorem sends_write (l : Link) (message : JsValue) (response : Option (MapKey × Author)) :
    l.Sends (l.write message response) := by
  rcases l.write_cases message response with ⟨-, h⟩ | ⟨c, -, h⟩
  · rw [h]
    exact l.sends_refl
  · exact ⟨_, h⟩

theorem sends_send (mp : Msgpack) (l : Link) (message : JsValue)
    (response : Option (MapKey × Author)) : l.Sends (l.send mp message response) := by
  unfold send
  split
  · exact l.sends_write message response
  · exact l.sends_refl

theorem scheduleReconnect_eq (options : ReconnectOptions) (now : ℤ) (l : Link) :
    l.scheduleReconnect options now = { l with
      reconnectTimer := (l.scheduleReconnect options now).reconnectTimer
      reconnectAttempt := (l.scheduleReconnect options now).reconnectAttempt } := by
  unfold scheduleReconnect
  split <;> rfl

theorem caught_eq (options : ReconnectOptions) (now : ℤ) (l : Link) (listener : Bool) :
    l.caught options now listener = { l with
      reconnectTimer := (l.caught options now listener).reconnectTimer
      reconnectAttempt := (l.caught options now listener).reconnectAttempt } := by
  unfold caught
  split
  · rw [scheduleReconnect_eq]
  · rfl

theorem caught_of_armed (options : ReconnectOptions) (now : ℤ) {l : Link}
    (h : l.reconnectTimer ≠ none) (listener : Bool) : l.caught options now listener = l := by
  have harmed : l.reconnectTimer.isSome = true := Option.isSome_iff_ne_none.mpr h
  simp [caught, scheduleReconnect, harmed]

theorem refused_eq (options : ReconnectOptions) (now : ℤ) (l : Link) (r : ℕ) (listener : Bool) :
    l.refused options now r listener = { l with
      dialing := l.dialing.erase r
      reconnectTimer := (l.refused options now r listener).reconnectTimer
      reconnectAttempt := (l.refused options now r listener).reconnectAttempt } := by
  unfold refused
  rw [caught_eq]

theorem closed_eq (options : ReconnectOptions) (now : ℤ) (l : Link) (c : ℕ) :
    l.closed options now c = { l with
      conns := Function.update l.conns c { l.conns c with status := .closed }
      socket := if l.socket = some c then none else l.socket
      reconnectTimer := (l.closed options now c).reconnectTimer
      reconnectAttempt := (l.closed options now c).reconnectAttempt } := by
  unfold closed
  dsimp only
  split
  · rw [scheduleReconnect_eq]
    rfl
  · rfl

theorem opened_conns (l : Link) (r x : ℕ) : (l.opened r).conns x =
    if x = l.nextConn then ⟨.opened, false, false⟩ else l.conns x :=
  Function.update_apply l.conns l.nextConn _ x

theorem closed_conns (options : ReconnectOptions) (now : ℤ) (l : Link) (c x : ℕ) :
    (l.closed options now c).conns x =
      if x = c then { l.conns c with status := .closed } else l.conns x := by
  rw [closed_eq]
  exact Function.update_apply l.conns c _ x

/-- `close` touches the connections and the reference to one. -/
theorem close_eq (l : Link) :
    l.close = { l with conns := l.close.conns, socket := l.close.socket } := by
  unfold close
  split
  · rfl
  · split <;> rfl

theorem close_socket (l : Link) :
    l.close.socket = l.socket.filter fun c => !(l.conns c).destroyed := by
  unfold close
  split
  next h => simp [h]
  next c h =>
    split
    next hd => simp [h, Option.filter, hd]
    next hd => simp [h, Option.filter, hd, setConn]

theorem close_conns (l : Link) (c : ℕ) : (l.close.conns c).status = (l.conns c).status ∧
    (l.close.conns c).destroyed = (l.conns c).destroyed := by
  unfold close
  split
  · exact ⟨rfl, rfl⟩
  next d hd =>
    split
    · exact ⟨rfl, rfl⟩
    · rw [setConn_conns]
      split
      next h => rw [h]; exact ⟨rfl, rfl⟩
      next => exact ⟨rfl, rfl⟩

theorem close_sent (l : Link) : l.close.sent = l.sent := by
  rw [close_eq]

theorem caught_sent (options : ReconnectOptions) (now : ℤ) (l : Link) (listener : Bool) :
    (l.caught options now listener).sent = l.sent := by
  rw [caught_eq]

theorem refused_sent (options : ReconnectOptions) (now : ℤ) (l : Link) (r : ℕ) (listener : Bool) :
    (l.refused options now r listener).sent = l.sent := by
  rw [refused_eq]

theorem closed_sent (options : ReconnectOptions) (now : ℤ) (l : Link) (c : ℕ) :
    (l.closed options now c).sent = l.sent := by
  rw [closed_eq]

theorem inv_write {l : Link} (h : l.Inv) (message : JsValue)
    (response : Option (MapKey × Author)) : (l.write message response).Inv := by
  rcases l.write_cases message response with ⟨-, he⟩ | ⟨c, hc, he⟩
  · rw [he]
    exact h
  · rw [he]
    refine { h with frames := fun f hf => ?_ }
    rw [List.mem_append, List.mem_singleton] at hf
    rcases hf with hf | rfl
    · exact h.frames f hf
    · exact h.lt_nextConn (h.socket c (writable_socket hc).1)

theorem inv_send {l : Link} (h : l.Inv) (mp : Msgpack) (message : JsValue)
    (response : Option (MapKey × Author)) : (l.send mp message response).Inv := by
  unfold send
  split
  · exact inv_write h message response
  · exact h

theorem setConn_status {l : Link} {c : ℕ} {conn : Conn} (h : conn.status = (l.conns c).status) (x : ℕ) :
    ((l.setConn c conn).conns x).status = (l.conns x).status := by
  rw [setConn_conns]
  split
  next hx => rw [hx, h]
  next => rfl

theorem inv_setConn {l : Link} (h : l.Inv) {c : ℕ} {conn : Conn}
    (hstatus : conn.status = (l.conns c).status) : (l.setConn c conn).Inv where
  unborn x hx := (setConn_status hstatus x).trans (h.unborn x hx)
  socket x hx := (setConn_status hstatus x).trans (h.socket x hx)
  frames := h.frames

theorem writable_iff (l : Link) (c : ℕ) : l.writable = some c ↔
    l.socket = some c ∧ (l.conns c).destroyed = false ∧ (l.conns c).ended = false :=
  ⟨writable_socket, fun h => writable_eq h.1 h.2.1 h.2.2⟩

theorem Sends.writable {l m : Link} (h : l.Sends m) : m.writable = l.writable := by
  obtain ⟨more, rfl⟩ := h
  rfl

theorem writable_close (l : Link) : l.close.writable = none := by
  unfold close
  split
  next h => simp [writable, h]
  next c hc =>
    split
    next => rfl
    next => simp [writable, setConn, hc]

theorem writable_opened {l : Link} {r c : ℕ} (h : (l.opened r).writable = some c) : c = l.nextConn :=
  (Option.some.inj (writable_socket h).1).symm

theorem writable_caught (options : ReconnectOptions) (now : ℤ) (l : Link) (listener : Bool) :
    (l.caught options now listener).writable = l.writable := by
  rw [caught_eq]
  rfl

theorem writable_refused (options : ReconnectOptions) (now : ℤ) (l : Link) (r : ℕ) (listener : Bool) :
    (l.refused options now r listener).writable = l.writable := by
  rw [refused_eq]
  rfl

theorem writable_closed {options : ReconnectOptions} {now : ℤ} {l : Link} {d c : ℕ}
    (h : (l.closed options now d).writable = some c) : l.writable = some c ∧ c ≠ d := by
  rw [closed_eq, writable_iff] at h
  obtain ⟨hs, hd, he⟩ := h
  have hsock : (if l.socket = some d then none else l.socket) = some c := hs
  split at hsock
  next => contradiction
  next hne =>
    have hcd : c ≠ d := fun hcd => hne (hcd ▸ hsock)
    simp only [Function.update_of_ne hcd] at hd he
    exact ⟨writable_eq hsock hd he, hcd⟩

theorem writable_broken {l : Link} {d c : ℕ} {destroyed : Bool}
    (h : (l.broken d destroyed).writable = some c) : l.writable = some c := by
  unfold broken at h
  rw [writable_iff] at h ⊢
  obtain ⟨hs, hd, he⟩ := h
  rw [setConn_conns] at hd he
  refine ⟨hs, ?_⟩
  split at hd
  next hcd =>
    rw [if_pos hcd] at he
    rw [hcd]
    exact ⟨(Bool.or_eq_false_iff.mp hd).1, (Bool.or_eq_false_iff.mp he).1⟩
  next hcd =>
    rw [if_neg hcd] at he
    exact ⟨hd, he⟩

theorem broken_status (l : Link) (c b : ℕ) (destroyed : Bool) :
    ((l.broken c destroyed).conns b).status = (l.conns b).status := by
  unfold broken
  rw [setConn_conns]
  split
  next h => rw [h]
  next => rfl

theorem inv_broken {l : Link} (h : l.Inv) (c : ℕ) (destroyed : Bool) : (l.broken c destroyed).Inv :=
  inv_setConn h rfl

theorem inv_close {l : Link} (h : l.Inv) : l.close.Inv := by
  unfold close
  split
  · exact h
  · split
    · exact { h with socket := fun x hx => by contradiction }
    · exact inv_setConn h rfl

theorem inv_opened {l : Link} (h : l.Inv) (r : ℕ) : (l.opened r).Inv := by
  have hconns := opened_conns l r
  constructor
  · intro x hx
    have hx' : l.nextConn + 1 ≤ x := hx
    rw [hconns, if_neg (by omega)]
    exact h.unborn x (by omega)
  · intro x hx
    cases hx
    unfold IsOpen
    rw [hconns, if_pos rfl]
  · intro f hf
    exact Nat.lt_succ_of_lt (h.frames f hf)

theorem inv_caught {l : Link} (h : l.Inv) (options : ReconnectOptions) (now : ℤ) (listener : Bool) :
    (l.caught options now listener).Inv := by
  rw [caught_eq]
  exact { h with }

theorem inv_refused {l : Link} (h : l.Inv) (options : ReconnectOptions) (now : ℤ) (r : ℕ)
    (listener : Bool) : (l.refused options now r listener).Inv :=
  inv_caught (l := { l with dialing := l.dialing.erase r }) ⟨h.unborn, h.socket, h.frames⟩ options now
    listener

theorem inv_closed {l : Link} (h : l.Inv) (options : ReconnectOptions) (now : ℤ) {c : ℕ}
    (hc : l.IsOpen c) : (l.closed options now c).Inv := by
  have hconns := closed_conns options now l c
  rw [closed_eq] at hconns ⊢
  constructor
  · intro x hx
    have hxc : x ≠ c := by
      rintro rfl
      exact absurd (h.lt_nextConn hc) (Nat.not_lt.mpr hx)
    rw [hconns, if_neg hxc]
    exact h.unborn x hx
  · intro x hx
    change (if l.socket = some c then none else l.socket) = some x at hx
    split at hx
    next => contradiction
    next hs =>
      have hxc : x ≠ c := fun hxc => hs (hxc ▸ hx)
      unfold IsOpen
      rw [hconns, if_neg hxc]
      exact h.socket x hx
  · exact h.frames

/-! ### One connection at a time -/

theorem single_sends {l m : Link} (h : l.Single) (hm : l.Sends m) : m.Single := by
  obtain ⟨more, rfl⟩ := hm
  exact ⟨h.single, h.current⟩

theorem single_setConn {l : Link} (h : l.Single) {c : ℕ} {conn : Conn}
    (hstatus : conn.status = (l.conns c).status)
    (hd : conn.destroyed = false → (l.conns c).destroyed = false) : (l.setConn c conn).Single := by
  have hopen : ∀ x, (l.setConn c conn).IsOpen x → l.IsOpen x :=
    fun x hx => (setConn_status hstatus x).symm.trans hx
  refine ⟨fun x y hx hy => h.single x y (hopen x hx) (hopen y hy), fun x hx hdx => ?_⟩
  refine h.current x (hopen x hx) ?_
  rw [setConn_conns] at hdx
  split at hdx
  next hxc => rw [hxc]; exact hd hdx
  next => exact hdx

theorem single_broken {l : Link} (h : l.Single) (c : ℕ) (destroyed : Bool) :
    (l.broken c destroyed).Single :=
  single_setConn h rfl fun hd => (Bool.or_eq_false_iff.mp hd).1

theorem single_close {l : Link} (hi : l.Inv) (h : l.Single) : l.close.Single := by
  unfold close
  split
  · exact h
  next c hc =>
    split
    next hd =>
      refine ⟨h.single, fun x hx hdx => ?_⟩
      have hxc : x = c := h.single x c hx (hi.socket c hc)
      have hdx' : (l.conns x).destroyed = false := hdx
      rw [hxc, hd] at hdx'
      contradiction
    next => exact single_setConn h rfl fun hd => hd

theorem open_opened {l : Link} (hnone : ∀ c, ¬ l.IsOpen c) {r c : ℕ} (hc : (l.opened r).IsOpen c) :
    c = l.nextConn := by
  unfold IsOpen at hc
  rw [opened_conns] at hc
  split at hc
  next hcn => exact hcn
  next => exact absurd hc (hnone c)

theorem single_opened {l : Link} (hnone : ∀ c, ¬ l.IsOpen c) (r : ℕ) : (l.opened r).Single where
  single x y hx hy := (open_opened hnone hx).trans (open_opened hnone hy).symm
  current x hx _ := by rw [open_opened hnone hx]; rfl

theorem single_caught {l : Link} (h : l.Single) (options : ReconnectOptions) (now : ℤ)
    (listener : Bool) : (l.caught options now listener).Single := by
  rw [caught_eq]
  exact ⟨h.single, h.current⟩

theorem single_refused {l : Link} (h : l.Single) (options : ReconnectOptions) (now : ℤ) (r : ℕ)
    (listener : Bool) : (l.refused options now r listener).Single :=
  single_caught (l := { l with dialing := l.dialing.erase r }) ⟨h.single, h.current⟩ options now listener

theorem noneOpen_closed {l : Link} (h : l.Single) (options : ReconnectOptions) (now : ℤ) {c : ℕ}
    (hc : l.IsOpen c) (x : ℕ) : ¬ (l.closed options now c).IsOpen x := by
  intro hx
  unfold IsOpen at hx
  rw [closed_conns] at hx
  split at hx
  next => contradiction
  next hxc => exact hxc (h.single x c hx hc)

theorem single_closed {l : Link} (h : l.Single) (options : ReconnectOptions) (now : ℤ) {c : ℕ}
    (hc : l.IsOpen c) : (l.closed options now c).Single :=
  ⟨fun x _ hx => absurd hx (noneOpen_closed h options now hc x),
    fun x hx => absurd hx (noneOpen_closed h options now hc x)⟩

/-! ### One connection, one attempt or one timer -/

theorem lone_sends {l m : Link} (h : l.Lone) (hm : l.Sends m) : m.Lone := by
  obtain ⟨more, rfl⟩ := hm
  exact ⟨h.alone, h.armed, h.dials⟩

theorem Lone.noneOpen {l : Link} (h : l.Lone) {r : ℕ} (hr : r ∈ l.dialing) (c : ℕ) : ¬ l.IsOpen c := by
  intro hc
  rw [(h.alone c hc).1] at hr
  contradiction

theorem Lone.erase {l : Link} (h : l.Lone) {r : ℕ} (hr : r ∈ l.dialing) : l.dialing.erase r = [] := by
  have hlen := List.length_erase_of_mem hr
  have hdials := h.dials
  exact List.length_eq_zero_iff.mp (by omega)

theorem Lone.unarmed {l : Link} (h : l.Lone) {r : ℕ} (hr : r ∈ l.dialing) : l.reconnectTimer = none := by
  by_contra ht
  rw [h.armed ht] at hr
  contradiction

theorem lone_scheduleReconnect {l : Link} (h : l.Lone) (options : ReconnectOptions) (now : ℤ)
    (hnone : ∀ c, ¬ l.IsOpen c) (hd : l.dialing = []) : (l.scheduleReconnect options now).Lone := by
  unfold scheduleReconnect
  split
  · exact h
  · exact ⟨fun c hc => absurd hc (hnone c), fun _ => hd, h.dials⟩

theorem lone_doReconnect {l : Link} (h : l.Lone) (ht : l.reconnectTimer ≠ none) (r : ℕ) :
    (l.doReconnect r).Lone := by
  have hnone : ∀ c, ¬ l.IsOpen c := fun c hc => ht (h.alone c hc).2
  refine ⟨fun c hc => absurd hc (hnone c), fun hn => absurd rfl hn, ?_⟩
  unfold doReconnect
  dsimp only
  split
  · exact h.dials
  · simp [h.armed ht]

theorem lone_opened {l : Link} (h : l.Lone) {r : ℕ} (hr : r ∈ l.dialing) : (l.opened r).Lone where
  alone _ _ := ⟨h.erase hr, h.unarmed hr⟩
  armed _ := h.erase hr
  dials := by
    change (l.dialing.erase r).length ≤ 1
    rw [h.erase hr]
    exact Nat.zero_le 1

theorem lone_caught {l : Link} (h : l.Lone) (options : ReconnectOptions) (now : ℤ) {listener : Bool}
    (hvacant : listener = true → l.closedByUs = false → l.reconnectTimer = none →
      (∀ c, ¬ l.IsOpen c) ∧ l.dialing = []) : (l.caught options now listener).Lone := by
  unfold caught
  split
  next hheard =>
    by_cases ht : l.reconnectTimer = none
    · obtain ⟨hnone, hd⟩ := hvacant hheard.1 hheard.2 ht
      exact lone_scheduleReconnect h options now hnone hd
    · unfold scheduleReconnect
      rw [if_pos (Or.inl (Option.isSome_iff_ne_none.mpr ht))]
      exact h
  next => exact h

theorem lone_refused {l : Link} (h : l.Lone) (options : ReconnectOptions) (now : ℤ) {r : ℕ}
    (hr : r ∈ l.dialing) (listener : Bool) : (l.refused options now r listener).Lone := by
  have hbase : ({ l with dialing := l.dialing.erase r } : Link).Lone := by
    refine ⟨fun c hc => absurd hc (h.noneOpen hr c), fun _ => h.erase hr, ?_⟩
    change (l.dialing.erase r).length ≤ 1
    rw [h.erase hr]
    exact Nat.zero_le 1
  exact lone_caught hbase options now fun _ _ _ => ⟨h.noneOpen hr, h.erase hr⟩

theorem lone_closed {l : Link} (hs : l.Single) (h : l.Lone) (options : ReconnectOptions) (now : ℤ)
    {c : ℕ} (hc : l.IsOpen c) : (l.closed options now c).Lone := by
  have hnone := noneOpen_closed hs options now hc
  have hd := (h.alone c hc).1
  have hdialing : (l.closed options now c).dialing = [] := by
    rw [closed_eq]
    exact hd
  refine ⟨fun x hx => absurd hx (hnone x), fun _ => hdialing, ?_⟩
  rw [hdialing]
  exact Nat.zero_le 1

theorem lone_status {l m : Link} (h : l.Lone) (hd : m.dialing = l.dialing)
    (ht : m.reconnectTimer = l.reconnectTimer)
    (hopen : ∀ c, (m.conns c).status = (l.conns c).status) : m.Lone := by
  refine ⟨fun c hc => ?_, ?_, ?_⟩
  · rw [hd, ht]
    exact h.alone c ((hopen c).symm.trans hc)
  · rw [hd, ht]
    exact h.armed
  · rw [hd]
    exact h.dials

theorem lone_close {l : Link} (h : l.Lone) : l.close.Lone := by
  refine lone_status h ?_ ?_ fun c => (l.close_conns c).1
  · rw [close_eq]
  · rw [close_eq]

theorem lone_broken {l : Link} (h : l.Lone) (c : ℕ) (destroyed : Bool) : (l.broken c destroyed).Lone :=
  lone_status h rfl rfl fun b => l.broken_status c b destroyed

end Link

end UnoQ.Client
