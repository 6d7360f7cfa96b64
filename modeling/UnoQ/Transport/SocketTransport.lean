import UnoQ.Lib.History
import UnoQ.Lib.Transition
import UnoQ.Transport.Descriptor
import UnoQ.Transport.Streams

/-!
# The socket transports

`socket-base.ts` with its subclasses, and `createTransport`. Of a `net.Socket` the machine assumes
what Node documents: 'connect' comes once, and 'secureConnect' once after it on a TLS socket, both not
on a destroyed one; 'error' comes at most once and destroys the socket; 'close' comes once, at the end,
and to a socket that is not ready only after its 'error'.
-/

namespace UnoQ.Transport
open BigEndian Transition History

inductive ReadyEvent
  | connect
  | secureConnect
  deriving DecidableEq

/-- The options of the three subclasses. -/
inductive SocketOptions
  | unix (socketPath : String)
  | tcp (host : String) (port : ℕ)
  | tls (host : String) (port : ℕ) (ca cert key : String)
  deriving DecidableEq

def SocketOptions.readyEvent : SocketOptions → ReadyEvent
  | .tls _ _ _ _ _ => .secureConnect
  | _ => .connect

def createTransport : TransportDescriptor → Except String SocketOptions
  | .unix path => .ok (.unix path)
  | .tcp host port => .ok (.tcp host port)
  | .tls host port ca cert key => .ok (.tls host port ca cert key)
  | .ssh _ _ deviceNick =>
    .error ("createTransport: 'ssh' descriptor must be paired with a transportInstance " ++
      "(deviceNick='" ++ deviceNick ++ "'). The n8n-side BridgeManager handles this; " ++
      "if you reached this from elsewhere, you need to construct an SshTransport manually.")

/-- What a `connect()` keeps: its `settled`, and which of its two listeners are attached. -/
structure Dial where
  settled : Bool
  onReady : Bool
  onError : Bool
  deriving DecidableEq

inductive Happening
  | ready (k : ℕ) (event : ReadyEvent)
  | wrote (k : ℕ) (bytes : Bytes)
  deriving DecidableEq

/-- An 'error' event without a listener is `uncaught`. -/
structure SocketTransport where
  streams : Streams
  dials : ℕ → Dial
  uncaught : List String
  log : List Happening

namespace SocketTransport

def initial : SocketTransport := ⟨.initial, fun _ => ⟨false, false, false⟩, [], []⟩

def setDial (s : SocketTransport) (k : ℕ) (d : Dial) : SocketTransport :=
  { s with dials := Function.update s.dials k d }

def connect (s : SocketTransport) : SocketTransport :=
  { s.setDial s.streams.next ⟨false, true, true⟩ with streams := s.streams.begin }

def onReady (s : SocketTransport) (k : ℕ) : SocketTransport :=
  if (s.dials k).settled then s
  else { s.setDial k { s.dials k with settled := true, onError := false } with
    streams := s.streams.resolve k }

def onError (s : SocketTransport) (k : ℕ) (message : String) : SocketTransport :=
  if (s.dials k).settled then s
  else { s.setDial k { s.dials k with settled := true, onReady := false } with
    streams := s.streams.reject k message true }

/-- A socket emits an event that may make it ready; a `once` listener is gone when it is called. -/
def ready (opts : SocketOptions) (s : SocketTransport) (k : ℕ) (event : ReadyEvent) :
    SocketTransport :=
  let s := { s with log := s.log ++ [.ready k event] }
  if event = opts.readyEvent ∧ (s.dials k).onReady then
    (s.setDial k { s.dials k with onReady := false }).onReady k
  else s

def error (s : SocketTransport) (k : ℕ) (message : String) : SocketTransport :=
  if (s.dials k).onError then
    (s.setDial k { s.dials k with onError := false }).onError k message
  else if (s.streams.streams k).promise = .resolved then
    { s with streams := s.streams.error k message }
  else { s with uncaught := s.uncaught ++ [message] }

def closed (s : SocketTransport) (k : ℕ) : SocketTransport :=
  { s with streams :=
      if (s.streams.streams k).promise = .resolved then s.streams.closed k else s.streams.gone k }

def write (s : SocketTransport) (bytes : Bytes) : SocketTransport :=
  { s with
    streams := (s.streams.write bytes).1
    log := match s.streams.current with
      | some k => if (s.streams.write bytes).2 then s.log ++ [.wrote k bytes] else s.log
      | none => s.log }

inductive Event
  | connect
  | ready (k : ℕ) (event : ReadyEvent)
  | data (k : ℕ) (chunk : Bytes)
  | error (k : ℕ) (message : String)
  | closed (k : ℕ)
  | broken (k : ℕ) (destroyed : Bool)
  | write (bytes : Bytes)
  | close

/-- What Node lets a socket emit, and when. -/
def enabled (opts : SocketOptions) (s : SocketTransport) : Event → Prop
  | .ready k .connect => k < s.streams.next ∧ (s.streams.streams k).destroyed = false ∧
      .ready k .connect ∉ s.log
  | .ready k .secureConnect => opts.readyEvent = .secureConnect ∧ .ready k .connect ∈ s.log ∧
      (s.streams.streams k).destroyed = false ∧ .ready k .secureConnect ∉ s.log
  | .data k _ => (s.streams.streams k).status = .up ∧ (s.streams.streams k).destroyed = false
  | .error k _ => k < s.streams.next ∧ (s.streams.streams k).status ≠ .closed ∧
      (s.streams.streams k).errored = false
  | .closed k => (s.streams.streams k).status = .up ∨
      (s.streams.streams k).status ≠ .closed ∧ (s.streams.streams k).errored = true
  | .broken k _ => (s.streams.streams k).status = .up
  | _ => True

instance (opts : SocketOptions) (s : SocketTransport) : ∀ e, Decidable (enabled opts s e)
  | .connect => isTrue trivial
  | .ready _ .connect => inferInstanceAs (Decidable (_ ∧ _ ∧ _))
  | .ready _ .secureConnect => inferInstanceAs (Decidable (_ ∧ _ ∧ _ ∧ _))
  | .data _ _ => inferInstanceAs (Decidable (_ ∧ _))
  | .error _ _ => inferInstanceAs (Decidable (_ ∧ _ ∧ _))
  | .closed _ => inferInstanceAs (Decidable (_ ∨ _ ∧ _))
  | .broken _ _ => inferInstanceAs (Decidable (_ = _))
  | .write _ => isTrue trivial
  | .close => isTrue trivial

def apply (opts : SocketOptions) (s : SocketTransport) : Event → SocketTransport
  | .connect => s.connect
  | .ready k event => s.ready opts k event
  | .data k chunk => { s with streams := s.streams.data k chunk }
  | .error k message => s.error k message
  | .closed k => s.closed k
  | .broken k destroyed => { s with streams := s.streams.broken k destroyed }
  | .write bytes => s.write bytes
  | .close => { s with streams := s.streams.close.1 }

def machine (opts : SocketOptions) : Machine SocketTransport Event :=
  .ofEnabled (· = initial) (enabled opts) (apply opts)

/-! ### Listeners and streams -/

structure Inv (opts : SocketOptions) (s : SocketTransport) : Prop where
  streams : s.streams.Inv
  pending : ∀ k, (s.streams.streams k).promise = .pending → s.dials k = ⟨false, true, true⟩
  deaf : ∀ k, (s.streams.streams k).promise ≠ .pending →
    (s.dials k).onReady = false ∧ (s.dials k).onError = false
  failed : ∀ k message, (s.streams.streams k).promise = .rejected message →
    (s.streams.streams k).errored = true
  ready : ∀ k, (s.streams.streams k).promise = .resolved → .ready k opts.readyEvent ∈ s.log
  caught : s.uncaught = []
  written : Causal (fun past h => ∀ k bytes, h = .wrote k bytes → .ready k opts.readyEvent ∈ past) s.log

variable {opts : SocketOptions} {s t : SocketTransport}

theorem setDial_dials (s : SocketTransport) (k x : ℕ) (d : Dial) :
    (s.setDial k d).dials x = if x = k then d else s.dials x :=
  Function.update_apply s.dials k d x

theorem inv_initial (opts : SocketOptions) : initial.Inv opts where
  streams := Streams.inv_initial
  pending := by
    intro k hk
    simp [initial, Streams.initial, Stream.absent] at hk
  deaf := fun _ _ => ⟨rfl, rfl⟩
  failed := by
    intro k message hk
    simp [initial, Streams.initial, Stream.absent] at hk
  ready := by
    intro k hk
    simp [initial, Streams.initial, Stream.absent] at hk
  caught := rfl
  written := causal_nil _

/-- The promise of a socket is settled: both listeners of its `connect()` are gone. -/
def settle (s : SocketTransport) (k : ℕ) (streams : Streams) : SocketTransport :=
  { s.setDial k ⟨true, false, false⟩ with streams := streams }

/-- A ready event makes the socket of a pending `connect()` the current one, and is not heard else. -/
theorem ready_cases (h : s.Inv opts) (k : ℕ) (event : ReadyEvent) :
    s.ready opts k event = { s with log := s.log ++ [.ready k event] } ∨
      event = opts.readyEvent ∧ (s.streams.streams k).promise = .pending ∧
        s.ready opts k event =
          { s.settle k (s.streams.resolve k) with log := s.log ++ [.ready k event] } := by
  unfold ready
  dsimp only
  split
  next hheard =>
    obtain ⟨hevent, hlistening⟩ := hheard
    have hpending : (s.streams.streams k).promise = .pending := by
      by_contra hne
      rw [(h.deaf k hne).1] at hlistening
      contradiction
    refine Or.inr ⟨hevent, hpending, ?_⟩
    simp [h.pending k hpending, onReady, setDial, settle]
  next => exact Or.inl rfl

/-- An 'error' rejects a pending `connect()`, or is forwarded. -/
theorem error_cases (h : s.Inv opts) {k : ℕ} (message : String) (hlt : k < s.streams.next)
    (hopen : (s.streams.streams k).status ≠ .closed) (hfirst : (s.streams.streams k).errored = false) :
    (s.streams.streams k).promise = .pending ∧
        s.error k message = s.settle k (s.streams.reject k message true) ∨
      (s.streams.streams k).status = .up ∧
        s.error k message = { s with streams := s.streams.error k message } := by
  cases hpromise : (s.streams.streams k).promise with
  | absent =>
    have hge := (h.streams.born k).mpr hpromise
    omega
  | pending =>
    refine Or.inl ⟨rfl, ?_⟩
    simp [error, h.pending k hpromise, onError, setDial, settle]
  | resolved =>
    refine Or.inr ⟨?_, ?_⟩
    · cases hstatus : (s.streams.streams k).status with
      | up => rfl
      | connecting => exact absurd hstatus ((h.streams.ok k).came hpromise)
      | closed => exact absurd hstatus hopen
    · simp [error, (h.deaf k (by simp [hpromise])).2, hpromise]
  | rejected m =>
    rw [h.failed k m hpromise] at hfirst
    contradiction

theorem closed_cases (h : s.Inv opts) {k : ℕ}
    (hk : (s.streams.streams k).status = .up ∨
      (s.streams.streams k).status ≠ .closed ∧ (s.streams.streams k).errored = true) :
    (s.streams.streams k).status = .up ∧ s.closed k = { s with streams := s.streams.closed k } ∨
      ∃ message, (s.streams.streams k).promise = .rejected message ∧
        s.closed k = { s with streams := s.streams.gone k } := by
  unfold closed
  cases hpromise : (s.streams.streams k).promise with
  | absent =>
    obtain ⟨hstatus, hfirst⟩ := (h.streams.ok k).quiet (Or.inl hpromise)
    simp [hstatus, hfirst] at hk
  | pending =>
    obtain ⟨hstatus, hfirst⟩ := (h.streams.ok k).quiet (Or.inr hpromise)
    simp [hstatus, hfirst] at hk
  | resolved =>
    refine Or.inl ⟨?_, by simp⟩
    cases hstatus : (s.streams.streams k).status with
    | up => rfl
    | connecting => exact absurd hstatus ((h.streams.ok k).came hpromise)
    | closed => simp [hstatus] at hk
  | rejected m => exact Or.inr ⟨m, rfl, by simp⟩

/-! ### Every step -/

/-- The promises stay, and a socket that has failed still has. -/
theorem Inv.onward (h : s.Inv opts) {u : Streams} (hu : u.Inv)
    (hpromise : ∀ k, (u.streams k).promise = (s.streams.streams k).promise)
    (herrored : ∀ k, (s.streams.streams k).errored = true → (u.streams k).errored = true)
    {log : List Happening} (hlog : ∀ x ∈ s.log, x ∈ log)
    (hwritten : Causal (fun past h => ∀ k bytes, h = .wrote k bytes → .ready k opts.readyEvent ∈ past) log) :
    ({ s with streams := u, log := log } : SocketTransport).Inv opts where
  streams := hu
  pending := fun k hk => h.pending k (hpromise k ▸ hk)
  deaf := fun k hk => h.deaf k (hpromise k ▸ hk)
  failed := fun k message hk => herrored k (h.failed k message (hpromise k ▸ hk))
  ready := fun k hk => hlog _ (h.ready k (hpromise k ▸ hk))
  caught := h.caught
  written := hwritten

theorem Inv.streaming (h : s.Inv opts) {u : Streams} (hu : u.Inv)
    (hpromise : ∀ k, (u.streams k).promise = (s.streams.streams k).promise)
    (herrored : ∀ k, (s.streams.streams k).errored = true → (u.streams k).errored = true) :
    ({ s with streams := u } : SocketTransport).Inv opts :=
  h.onward hu hpromise herrored (fun _ hx => hx) h.written

theorem flags_promise (u : Streams) (k x : ℕ) {y : Stream} (hy : y.promise = (u.streams k).promise) :
    ((u.set k y).streams x).promise = (u.streams x).promise := by
  rw [Streams.set_streams]
  split
  next hx => rw [hx, hy]
  next => rfl

theorem flags_errored (u : Streams) (k x : ℕ) {y : Stream}
    (hy : (u.streams k).errored = true → y.errored = true) (hx : (u.streams x).errored = true) :
    ((u.set k y).streams x).errored = true := by
  rw [Streams.set_streams]
  split
  next he => exact hy (he ▸ hx)
  next => exact hx

theorem inv_connect (h : s.Inv opts) : s.connect.Inv opts := by
  have hother : ∀ k, k ≠ s.streams.next →
      s.connect.streams.streams k = s.streams.streams k ∧ s.connect.dials k = s.dials k := by
    intro k hk
    simp [connect, setDial, Streams.begin, hk]
  have hself : s.connect.streams.streams s.streams.next = .dialed ∧
      s.connect.dials s.streams.next = ⟨false, true, true⟩ := by
    simp [connect, setDial, Streams.begin]
  refine ⟨Streams.inv_begin h.streams, ?_, ?_, ?_, ?_, h.caught, h.written⟩
  · intro k hk
    by_cases hx : k = s.streams.next
    · rw [hx]
      exact hself.2
    · obtain ⟨hstream, hdial⟩ := hother k hx
      rw [hstream] at hk
      rw [hdial]
      exact h.pending k hk
  · intro k hk
    have hx : k ≠ s.streams.next := by
      rintro rfl
      simp [hself.1, Stream.dialed] at hk
    obtain ⟨hstream, hdial⟩ := hother k hx
    rw [hstream] at hk
    rw [hdial]
    exact h.deaf k hk
  · intro k message hk
    have hx : k ≠ s.streams.next := by
      rintro rfl
      simp [hself.1, Stream.dialed] at hk
    rw [(hother k hx).1] at hk ⊢
    exact h.failed k message hk
  · intro k hk
    have hx : k ≠ s.streams.next := by
      rintro rfl
      simp [hself.1, Stream.dialed] at hk
    rw [(hother k hx).1] at hk
    exact h.ready k hk

/-- A `connect()` settles: the socket `k` becomes `x`, and both its listeners are gone. -/
theorem inv_settle (h : s.Inv opts) {k : ℕ} {u : Streams} {x : Stream} {log : List Happening}
    (hu : u.Inv) (hstreams : ∀ y, u.streams y = if y = k then x else s.streams.streams y)
    (hsettled : x.promise ≠ .pending) (hfailed : ∀ message, x.promise = .rejected message → x.errored = true)
    (hready : x.promise = .resolved → .ready k opts.readyEvent ∈ log) (hlog : ∀ e ∈ s.log, e ∈ log)
    (hwritten : Causal (fun past h => ∀ k bytes, h = .wrote k bytes → .ready k opts.readyEvent ∈ past) log) :
    ({ s.settle k u with log := log } : SocketTransport).Inv opts := by
  have hdials : ∀ y, (s.settle k u).dials y = if y = k then ⟨true, false, false⟩ else s.dials y :=
    fun y => setDial_dials s k y _
  refine ⟨hu, ?_, ?_, ?_, ?_, h.caught, hwritten⟩
  · intro y hy
    change (u.streams y).promise = .pending at hy
    change (s.settle k u).dials y = _
    rw [hstreams] at hy
    rw [hdials]
    split at hy
    next => exact absurd hy hsettled
    next hne =>
      rw [if_neg hne]
      exact h.pending y hy
  · intro y hy
    change (u.streams y).promise ≠ .pending at hy
    change ((s.settle k u).dials y).onReady = false ∧ ((s.settle k u).dials y).onError = false
    rw [hstreams] at hy
    rw [hdials]
    split at hy
    next hne =>
      rw [if_pos hne]
      exact ⟨rfl, rfl⟩
    next hne =>
      rw [if_neg hne]
      exact h.deaf y hy
  · intro y message hy
    change (u.streams y).promise = .rejected message at hy
    change (u.streams y).errored = true
    rw [hstreams] at hy ⊢
    split at hy
    next hne =>
      rw [if_pos hne]
      exact hfailed message hy
    next hne =>
      rw [if_neg hne]
      exact h.failed y message hy
  · intro y hy
    change (u.streams y).promise = .resolved at hy
    change Happening.ready y opts.readyEvent ∈ log
    rw [hstreams] at hy
    split at hy
    next hne =>
      rw [hne]
      exact hready hy
    next => exact hlog _ (h.ready y hy)

theorem written_ready (h : s.Inv opts) (k : ℕ) (event : ReadyEvent) :
    Causal (fun past h => ∀ k bytes, h = .wrote k bytes → .ready k opts.readyEvent ∈ past)
      (s.log ++ [.ready k event]) := by
  refine causal_snoc.mpr ⟨h.written, ?_⟩
  intro k' bytes heq
  cases heq

theorem inv_ready (h : s.Inv opts) (k : ℕ) (event : ReadyEvent) : (s.ready opts k event).Inv opts := by
  have hlog : ∀ e ∈ s.log, e ∈ s.log ++ [Happening.ready k event] := fun e he =>
    List.mem_append_left _ he
  rcases ready_cases h k event with heq | ⟨hevent, hpending, heq⟩
  · rw [heq]
    exact h.onward h.streams (fun _ => rfl) (fun _ he => he) hlog (written_ready h k event)
  · rw [heq]
    refine inv_settle h (Streams.inv_resolve h.streams hpending)
      (fun y => Streams.set_streams s.streams k y _) (by simp) (by simp) ?_ hlog (written_ready h k event)
    intro _
    simp [hevent]

theorem inv_error (h : s.Inv opts) {k : ℕ} {message : String} (hlt : k < s.streams.next)
    (hopen : (s.streams.streams k).status ≠ .closed) (hfirst : (s.streams.streams k).errored = false) :
    (s.error k message).Inv opts := by
  rcases error_cases h message hlt hopen hfirst with ⟨hpending, heq⟩ | ⟨hup, heq⟩
  · rw [heq]
    exact inv_settle h (Streams.inv_act h.streams (.reject hpending message true))
      (fun y => Streams.set_streams s.streams k y _) (by simp) (by simp) (by simp) (fun _ he => he)
      h.written
  · rw [heq]
    exact h.streaming (Streams.inv_act h.streams (.error hup message))
      (fun y => flags_promise s.streams k y rfl) fun y hy => flags_errored s.streams k y (fun _ => rfl) hy

theorem inv_closed (h : s.Inv opts) {k : ℕ}
    (hk : (s.streams.streams k).status = .up ∨
      (s.streams.streams k).status ≠ .closed ∧ (s.streams.streams k).errored = true) :
    (s.closed k).Inv opts := by
  rcases closed_cases h hk with ⟨hup, heq⟩ | ⟨message, hrejected, heq⟩
  · rw [heq]
    exact h.streaming (Streams.inv_closed h.streams hup)
      (fun y => flags_promise s.streams k y rfl) fun y hy => flags_errored s.streams k y (fun he => he) hy
  · rw [heq]
    exact h.streaming (Streams.inv_act h.streams (.gone message hrejected))
      (fun y => flags_promise s.streams k y rfl) fun y hy => flags_errored s.streams k y (fun he => he) hy

theorem broken_same (u : Streams) (k : ℕ) (destroyed : Bool) (y : ℕ) :
    ((u.broken k destroyed).streams y).promise = (u.streams y).promise ∧
      ((u.streams y).errored = true → ((u.broken k destroyed).streams y).errored = true) :=
  ⟨flags_promise u k y rfl, flags_errored u k y fun he => he⟩

theorem write_same (u : Streams) (bytes : Bytes) (y : ℕ) :
    ((u.write bytes).1.streams y).promise = (u.streams y).promise ∧
      ((u.streams y).errored = true → ((u.write bytes).1.streams y).errored = true) := by
  unfold Streams.write
  split
  next => exact ⟨rfl, id⟩
  next k hcur =>
    split
    · exact ⟨rfl, id⟩
    · split
      · exact broken_same u k true y
      · exact ⟨rfl, id⟩

theorem close_same (u : Streams) (y : ℕ) :
    (u.close.1.streams y).promise = (u.streams y).promise ∧
      ((u.streams y).errored = true → (u.close.1.streams y).errored = true) := by
  unfold Streams.close
  split
  next => exact ⟨rfl, id⟩
  next k hcur =>
    split
    · exact ⟨rfl, id⟩
    · exact broken_same u k false y

theorem inv_write (h : s.Inv opts) (bytes : Bytes) : (s.write bytes).Inv opts := by
  refine h.onward (Streams.inv_write h.streams bytes) (fun y => (write_same _ bytes y).1)
    (fun y => (write_same _ bytes y).2) ?_ ?_
  · intro e he
    split
    next =>
      split
      · exact List.mem_append_left _ he
      · exact he
    next => exact he
  · split
    next k hcur =>
      split
      · refine causal_snoc.mpr ⟨h.written, ?_⟩
        intro k' bytes' heq
        cases heq
        exact h.ready k (h.streams.resolved (h.streams.current k hcur).2)
      · exact h.written
    next => exact h.written

theorem inv_step {e : Event} (h : s.Inv opts) (hs : (machine opts).step s e = some t) : t.Inv opts := by
  obtain ⟨hen, rfl⟩ := Machine.ofEnabled_step.mp hs
  cases e with
  | connect => exact inv_connect h
  | ready k event => exact inv_ready h k event
  | data k chunk =>
    exact h.streaming (Streams.inv_act h.streams (.data hen.1 chunk)) (fun _ => rfl) fun _ he => he
  | error k message => exact inv_error h hen.1 hen.2.1 hen.2.2
  | closed k => exact inv_closed h hen
  | broken k destroyed =>
    exact h.streaming (Streams.inv_broken h.streams hen destroyed)
      (fun y => (broken_same _ k destroyed y).1) fun y => (broken_same _ k destroyed y).2
  | write bytes => exact inv_write h bytes
  | close =>
    exact h.streaming (Streams.inv_close h.streams) (fun y => (close_same _ y).1) fun y =>
      (close_same _ y).2

theorem inv_reach {ok : Guard SocketTransport Event} (h : (machine opts).Reach ok s) : s.Inv opts := by
  refine h.invariant (P := fun s => s.Inv opts) ?_ ?_
  · rintro s rfl
    exact inv_initial opts
  · intro s e t _ hi hs _
    exact inv_step hi hs

/-- Every step of a socket transport is an act on its streams. -/
theorem act_step {e : Event} (h : s.Inv opts) (hs : (machine opts).step s e = some t) :
    s.streams.Act t.streams := by
  obtain ⟨hen, rfl⟩ := Machine.ofEnabled_step.mp hs
  cases e with
  | connect => exact .begin
  | ready k event =>
    rcases ready_cases h k event with heq | ⟨-, hpending, heq⟩
    · simp only [apply, heq]
      exact .idle
    · simp only [apply, heq]
      exact .resolve hpending
  | data k chunk => exact .data hen.1 chunk
  | error k message =>
    rcases error_cases h message hen.1 hen.2.1 hen.2.2 with ⟨hpending, heq⟩ | ⟨hup, heq⟩
    · simp only [apply, heq]
      exact .reject hpending message true
    · simp only [apply, heq]
      exact .error hup message
  | closed k =>
    rcases closed_cases h hen with ⟨hup, heq⟩ | ⟨message, hrejected, heq⟩
    · simp only [apply, heq]
      exact .closed hup
    · simp only [apply, heq]
      exact .gone message hrejected
  | broken k destroyed => exact .broken hen destroyed
  | write bytes => exact .write bytes
  | close => exact .close

/-! ### Whole runs -/

/-- A transport keeps its contract for every connection, and no 'error' of its sockets goes unheard. -/
theorem contract_reach (opts : SocketOptions) {s : SocketTransport}
    (h : (machine opts).Reach always s) : s.streams.Contract ∧ s.uncaught = [] :=
  ⟨(inv_reach h).streams.toContract, (inv_reach h).caught⟩

/-- Nothing is written to a socket before the event that its transport waits for: on a TLS socket, the
end of its handshake. -/
theorem readyFirst_reach (opts : SocketOptions) {s : SocketTransport}
    (h : (machine opts).Reach always s) (k : ℕ) (bytes : Bytes) (past rest : List Happening)
    (hlog : s.log = past ++ .wrote k bytes :: rest) : .ready k opts.readyEvent ∈ past :=
  (inv_reach h).written past (.wrote k bytes) rest hlog k bytes rfl

def relay : SocketOptions := .tls "q.local" 8443 "ca" "cert" "key"

/-- The first handshake fails, the second one succeeds. -/
def retriedRun : List Event :=
  [.connect, .ready 0 .connect, .error 0 "handshake failure", .closed 0, .connect, .ready 1 .connect,
    .write [0x93], .ready 1 .secureConnect, .write [0x94], .data 1 [0xc0], .error 1 "reset", .closed 1]

def retriedState : SocketTransport := (machine relay).after always initial retriedRun

theorem retriedRun_contract : retriedState.streams.eventsOf 0 = [] ∧
    retriedState.streams.eventsOf 1 = [.data [0xc0], .error "reset", .close] ∧
    retriedState.streams.Contract ∧ retriedState.uncaught = [] :=
  ⟨by decide +kernel, by decide +kernel,
    contract_reach relay ((Machine.Reach.init rfl).after retriedRun)⟩

theorem retriedRun_readyFirst :
    .ready 1 .secureConnect ∈ retriedState.log.take 3 ∧ retriedState.streams.sent = [(1, [0x94])] :=
  ⟨readyFirst_reach relay ((Machine.Reach.init rfl).after retriedRun) 1 [0x94] (retriedState.log.take 3) []
    (by decide +kernel), by decide +kernel⟩

end SocketTransport

end UnoQ.Transport
