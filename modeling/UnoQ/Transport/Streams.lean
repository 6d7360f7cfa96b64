import Mathlib.Logic.Function.Basic
import UnoQ.Lib.BigEndian

/-!
# What a transport does with its streams

`SocketTransport` and `SshTransport` get their streams in different ways, and then do the same with
them: they forward the events of every stream that a `connect()` has resolved with, and write to the
one that resolved last. A stream here is one call of `connect()` with what came of it.
-/

namespace UnoQ.Transport
open BigEndian

inductive TransportEvent
  | data (chunk : Bytes)
  | close
  | error (message : String)
  deriving DecidableEq

inductive ConnectPromise
  | absent
  | pending
  | resolved
  | rejected (message : String)
  deriving DecidableEq

inductive StreamStatus
  | connecting
  | up
  | closed
  deriving DecidableEq

/-- A stream as Node keeps it: `ended` once its writable side is finished, `errored` once it has
emitted 'error', which it does only once. -/
structure Stream where
  promise : ConnectPromise
  status : StreamStatus
  destroyed : Bool
  ended : Bool
  errored : Bool
  deriving DecidableEq

def Stream.absent : Stream := ⟨.absent, .connecting, false, false, false⟩

def Stream.dialed : Stream := ⟨.pending, .connecting, false, false, false⟩

/-- What the promise of a `connect()` says about its stream. -/
def Stream.Ok (x : Stream) : Prop :=
  match x.promise with
  | .absent => x = .absent
  | .pending => x = .dialed
  | .resolved => x.status ≠ .connecting
  | .rejected _ => x.status ≠ .up

theorem Stream.Ok.resolved {x : Stream} (h : x.Ok) (hup : x.status = .up) : x.promise = .resolved := by
  unfold Ok at h
  split at h
  next =>
    rw [h] at hup
    contradiction
  next =>
    rw [h] at hup
    contradiction
  next hpromise => exact hpromise
  next => exact absurd hup h

theorem Stream.Ok.dialed {x : Stream} (h : x.Ok) (hx : x.promise = .pending) : x = .dialed := by
  unfold Ok at h
  rw [hx] at h
  exact h

/-- Before its `connect()` has settled a stream has done nothing. -/
theorem Stream.Ok.quiet {x : Stream} (h : x.Ok) (hx : x.promise = .absent ∨ x.promise = .pending) :
    x.status = .connecting ∧ x.errored = false := by
  unfold Ok at h
  rcases hx with hx | hx
  · rw [hx] at h
    rw [h]
    exact ⟨rfl, rfl⟩
  · rw [hx] at h
    rw [h]
    exact ⟨rfl, rfl⟩

theorem Stream.Ok.came {x : Stream} (h : x.Ok) (hx : x.promise = .resolved) :
    x.status ≠ .connecting := by
  unfold Ok at h
  rw [hx] at h
  exact h

/-- Streams are numbered by their `connect()`; `resolved` lists those that are or were up, in the
order in which they came up, and `emitted` names the stream behind each event. -/
structure Streams where
  streams : ℕ → Stream
  next : ℕ
  current : Option ℕ
  resolved : List ℕ
  emitted : List (ℕ × TransportEvent)
  sent : List (ℕ × Bytes)

namespace Streams

def initial : Streams := ⟨fun _ => .absent, 0, none, [], [], []⟩

def set (s : Streams) (k : ℕ) (x : Stream) : Streams :=
  { s with streams := Function.update s.streams k x }

def emit (s : Streams) (k : ℕ) (e : TransportEvent) : Streams :=
  { s with emitted := s.emitted ++ [(k, e)] }

def begin (s : Streams) : Streams := { s.set s.next .dialed with next := s.next + 1 }

/-- The stream is wired and becomes the one that is written to. -/
def resolve (s : Streams) (k : ℕ) : Streams :=
  { s.set k { s.streams k with promise := .resolved, status := .up } with
    current := some k
    resolved := s.resolved ++ [k] }

def reject (s : Streams) (k : ℕ) (message : String) (destroyed : Bool) : Streams :=
  s.set k { s.streams k with promise := .rejected message, destroyed := destroyed, errored := destroyed }

def data (s : Streams) (k : ℕ) (chunk : Bytes) : Streams := s.emit k (.data chunk)

def error (s : Streams) (k : ℕ) (message : String) : Streams :=
  (s.set k { s.streams k with destroyed := true, errored := true }).emit k (.error message)

/-- The 'close' event of a stream that is wired. -/
def closed (s : Streams) (k : ℕ) : Streams :=
  { (s.set k { s.streams k with status := .closed }).emit k .close with
    current := if s.current = some k then none else s.current }

/-- A stream that was given up closes unheard. -/
def gone (s : Streams) (k : ℕ) : Streams := s.set k { s.streams k with status := .closed }

/-- The stream is destroyed, or the peer has ended it, before it says so. -/
def broken (s : Streams) (k : ℕ) (destroyed : Bool) : Streams :=
  s.set k { s.streams k with
    destroyed := (s.streams k).destroyed || destroyed
    ended := (s.streams k).ended || !destroyed }

/-- Writing after the end destroys the stream. The result is that of `write`, up to backpressure. -/
def write (s : Streams) (bytes : Bytes) : Streams × Bool :=
  match s.current with
  | none => (s, false)
  | some k =>
    if (s.streams k).destroyed then (s, false)
    else if (s.streams k).ended then (s.broken k true, false)
    else ({ s with sent := s.sent ++ [(k, bytes)] }, true)

/-- `close()` up to its `await`, if it has one: then the stream whose 'close' it waits for. -/
def close (s : Streams) : Streams × Option ℕ :=
  match s.current with
  | none => (s, none)
  | some k =>
    if (s.streams k).destroyed then ({ s with current := none }, none)
    else (s.broken k false, some k)

/-- What may happen to the streams, whichever transport they belong to. -/
inductive Act (s : Streams) : Streams → Prop
  | idle : Act s s
  | begin : Act s s.begin
  | resolve {k : ℕ} (hk : (s.streams k).promise = .pending) : Act s (s.resolve k)
  | reject {k : ℕ} (hk : (s.streams k).promise = .pending) (message : String) (destroyed : Bool) :
    Act s (s.reject k message destroyed)
  | data {k : ℕ} (hk : (s.streams k).status = .up) (chunk : Bytes) : Act s (s.data k chunk)
  | error {k : ℕ} (hk : (s.streams k).status = .up) (message : String) : Act s (s.error k message)
  | closed {k : ℕ} (hk : (s.streams k).status = .up) : Act s (s.closed k)
  | gone {k : ℕ} (message : String) (hk : (s.streams k).promise = .rejected message) :
    Act s (s.gone k)
  | broken {k : ℕ} (hk : (s.streams k).status = .up) (destroyed : Bool) : Act s (s.broken k destroyed)
  | write (bytes : Bytes) : Act s (s.write bytes).1
  | close : Act s s.close.1

def eventsOf (s : Streams) (k : ℕ) : List TransportEvent :=
  (s.emitted.filter fun e => e.1 = k).map (·.2)

/-- What the users of a transport rely on, connection by connection. -/
structure Contract (s : Streams) : Prop where
  /-- A `connect()` that has not resolved is never heard of. -/
  silent : ∀ k, (s.streams k).promise ≠ .resolved → s.eventsOf k = []
  /-- A connection is closed once, at its end, and nothing is heard of it afterwards. -/
  closes : ∀ k, (s.streams k).promise = .resolved →
    ∃ heard, .close ∉ heard ∧
      s.eventsOf k = if (s.streams k).status = .closed then heard ++ [.close] else heard
  /-- The connection written to is the one that came up last, and it has not closed. -/
  current : ∀ k, s.current = some k → s.resolved.getLast? = some k ∧ (s.streams k).status = .up
  /-- Nothing is written to a connection that never came up. -/
  sent : ∀ w ∈ s.sent, w.1 ∈ s.resolved

structure Inv (s : Streams) : Prop extends Contract s where
  ok : ∀ k, (s.streams k).Ok
  born : ∀ k, s.next ≤ k ↔ (s.streams k).promise = .absent
  mem : ∀ k, k ∈ s.resolved ↔ (s.streams k).promise = .resolved
  nodup : s.resolved.Nodup

/-! ### One stream changes -/

@[simp] theorem set_streams (s : Streams) (k x : ℕ) (y : Stream) :
    (s.set k y).streams x = if x = k then y else s.streams x :=
  Function.update_apply s.streams k y x

@[simp] theorem emit_eventsOf (s : Streams) (k x : ℕ) (e : TransportEvent) :
    (s.emit k e).eventsOf x = if x = k then s.eventsOf x ++ [e] else s.eventsOf x := by
  unfold eventsOf emit
  dsimp only
  rw [List.filter_append]
  by_cases hx : x = k
  · subst hx
    simp
  · have hne : k ≠ x := fun h => hx h.symm
    simp [hx, hne]

theorem inv_initial : initial.Inv where
  silent := fun _ _ => rfl
  closes := by
    intro k hk
    simp [initial, Stream.absent] at hk
  current := by
    intro k hk
    cases hk
  sent := by simp [initial]
  ok := fun _ => rfl
  born := by
    intro k
    simp [initial, Stream.absent]
  mem := by
    intro k
    simp [initial, Stream.absent]
  nodup := List.nodup_nil

section Change

variable {s : Streams} {k : ℕ} {x : Stream}

theorem Inv.lt (h : s.Inv) (hk : (s.streams k).promise ≠ .absent) : k < s.next := by
  by_contra hge
  exact hk ((h.born k).mp (Nat.le_of_not_lt hge))

theorem Inv.resolved (h : s.Inv) (hk : (s.streams k).status = .up) :
    (s.streams k).promise = .resolved := (h.ok k).resolved hk

theorem Inv.not_current (h : s.Inv) (hk : (s.streams k).promise ≠ .resolved) :
    s.current ≠ some k := fun hcur => hk (h.resolved (h.current k hcur).2)

theorem Inv.not_mem (h : s.Inv) (hk : (s.streams k).promise ≠ .resolved) : k ∉ s.resolved :=
  fun hin => hk ((h.mem k).mp hin)

theorem ok_set (h : s.Inv) (hx : x.Ok) (y : ℕ) : ((s.set k x).streams y).Ok := by
  rw [set_streams]
  split
  · exact hx
  · exact h.ok y

theorem born_set (h : s.Inv) (hk : (s.streams k).promise ≠ .absent) (hx : x.promise ≠ .absent)
    (y : ℕ) : s.next ≤ y ↔ ((s.set k x).streams y).promise = .absent := by
  rw [set_streams]
  split
  next hy =>
    subst hy
    simp [hx, h.lt hk]
  next => exact h.born y

/-- Where a stream keeps its promise and its status, the contract is kept. -/
theorem inv_flags (h : s.Inv) (hpromise : x.promise = (s.streams k).promise)
    (hstatus : x.status = (s.streams k).status) (hk : (s.streams k).status = .up) :
    (s.set k x).Inv := by
  have hres := h.resolved hk
  have hp : ∀ y, ((s.set k x).streams y).promise = (s.streams y).promise := by
    intro y
    rw [set_streams]
    split
    next hy => rw [hy, hpromise]
    next => rfl
  have hst : ∀ y, ((s.set k x).streams y).status = (s.streams y).status := by
    intro y
    rw [set_streams]
    split
    next hy => rw [hy, hstatus]
    next => rfl
  have hx : x.Ok := by
    unfold Stream.Ok
    rw [hpromise, hres, hstatus, hk]
    simp
  refine ⟨⟨?_, ?_, ?_, h.sent⟩, ok_set h hx, ?_, ?_, h.nodup⟩
  · intro y hy
    rw [hp] at hy
    exact h.silent y hy
  · intro y hy
    rw [hp] at hy
    rw [hst]
    exact h.closes y hy
  · intro y hy
    rw [hst]
    exact h.current y hy
  · exact born_set h (by simp [hres]) (by simp [hpromise, hres])
  · intro y
    rw [hp]
    exact h.mem y

/-- A stream that is not up may become anything else that is not up. -/
theorem inv_down (h : s.Inv) (hborn : (s.streams k).promise ≠ .absent)
    (hk : (s.streams k).promise ≠ .resolved) (hx : x.Ok) (habsent : x.promise ≠ .absent)
    (hdown : x.promise ≠ .resolved) : (s.set k x).Inv := by
  have hsame : ∀ y, ((s.set k x).streams y).promise = .resolved ↔
      (s.streams y).promise = .resolved := by
    intro y
    rw [set_streams]
    split
    next hy => simp [hy, hdown, hk]
    next => exact Iff.rfl
  have hother : ∀ y, (s.streams y).promise = .resolved → (s.set k x).streams y = s.streams y := by
    intro y hy
    rw [set_streams, if_neg]
    rintro rfl
    exact hk hy
  refine ⟨⟨?_, ?_, ?_, h.sent⟩, ok_set h hx, born_set h hborn habsent, ?_, h.nodup⟩
  · intro y hy
    exact h.silent y fun hr => hy ((hsame y).mpr hr)
  · intro y hy
    have hres := (hsame y).mp hy
    rw [hother y hres]
    exact h.closes y hres
  · intro y hy
    obtain ⟨hlast, hup⟩ := h.current y hy
    rw [hother y (h.resolved hup)]
    exact ⟨hlast, hup⟩
  · intro y
    rw [hsame y]
    exact h.mem y

end Change

/-! ### Every act keeps the contract -/

theorem inv_begin {s : Streams} (h : s.Inv) : s.begin.Inv := by
  have hnew : (s.streams s.next).promise ≠ .resolved := by
    rw [(h.born s.next).mp (Nat.le_refl _)]
    simp
  have hother : ∀ k, k ≠ s.next → s.begin.streams k = s.streams k := by
    intro k hk
    simp [begin, hk]
  have hself : s.begin.streams s.next = .dialed := by simp [begin]
  refine ⟨⟨?_, ?_, ?_, h.sent⟩, ok_set h rfl, ?_, ?_, h.nodup⟩
  · intro k hk
    by_cases hx : k = s.next
    · rw [hx]
      exact h.silent s.next hnew
    · rw [hother k hx] at hk
      exact h.silent k hk
  · intro k hk
    have hx : k ≠ s.next := by
      rintro rfl
      simp [hself, Stream.dialed] at hk
    rw [hother k hx] at hk ⊢
    exact h.closes k hk
  · intro k hk
    have hx : k ≠ s.next := by
      rintro rfl
      exact h.not_current hnew hk
    rw [hother k hx]
    exact h.current k hk
  · intro k
    by_cases hx : k = s.next
    · rw [hx, hself]
      simp [begin, Stream.dialed]
    · rw [hother k hx, ← h.born k]
      change s.next + 1 ≤ k ↔ s.next ≤ k
      omega
  · intro k
    by_cases hx : k = s.next
    · have hout := h.not_mem hnew
      rw [hx, hself]
      simp [begin, set, Stream.dialed, hout]
    · rw [hother k hx]
      exact h.mem k

theorem inv_resolve {s : Streams} (h : s.Inv) {k : ℕ} (hk : (s.streams k).promise = .pending) :
    (s.resolve k).Inv := by
  have hdown : (s.streams k).promise ≠ .resolved := by simp [hk]
  have hborn : (s.streams k).promise ≠ .absent := by simp [hk]
  have hother : ∀ x, x ≠ k → (s.resolve k).streams x = s.streams x := by
    intro x hx
    simp [resolve, hx]
  have hself : (s.resolve k).streams k = { s.streams k with promise := .resolved, status := .up } := by
    simp [resolve]
  refine ⟨⟨?_, ?_, ?_, ?_⟩, ok_set h (by simp [Stream.Ok]), born_set h hborn (by simp), ?_, ?_⟩
  · intro x hx
    have hne : x ≠ k := by
      rintro rfl
      simp [hself] at hx
    rw [hother x hne] at hx
    exact h.silent x hx
  · intro x hx
    by_cases hne : x = k
    · subst hne
      refine ⟨[], List.not_mem_nil, ?_⟩
      rw [hself, if_neg (by simp)]
      exact h.silent x hdown
    · rw [hother x hne] at hx ⊢
      exact h.closes x hx
  · intro x hx
    obtain rfl : k = x := Option.some.inj hx
    rw [hself]
    simp [resolve]
  · intro w hw
    exact List.mem_append_left _ (h.sent w hw)
  · intro x
    by_cases hne : x = k
    · rw [hne, hself]
      simp [resolve]
    · rw [hother x hne, ← h.mem x]
      simp [resolve, set, hne]
  · have hout := h.not_mem hdown
    have hdisjoint : ∀ a ∈ s.resolved, ∀ b ∈ [k], a ≠ b := by
      intro a ha b hb
      rw [List.mem_singleton] at hb
      rintro rfl
      exact hout (hb ▸ ha)
    exact List.nodup_append.mpr ⟨h.nodup, by simp, hdisjoint⟩

/-- An event other than 'close' is heard of a stream that is up. -/
theorem inv_emit {s : Streams} (h : s.Inv) {k : ℕ} (hk : (s.streams k).status = .up)
    {e : TransportEvent} (he : e ≠ .close) : (s.emit k e).Inv := by
  refine ⟨⟨?_, ?_, h.current, h.sent⟩, h.ok, h.born, h.mem, h.nodup⟩
  · intro x hx
    have hne : x ≠ k := by
      rintro rfl
      exact hx (h.resolved hk)
    rw [emit_eventsOf, if_neg hne]
    exact h.silent x hx
  · intro x hx
    obtain ⟨heard, hclose, hevents⟩ := h.closes x hx
    rw [emit_eventsOf]
    split
    next hne =>
      rw [hne, hk, if_neg (by simp)] at hevents
      refine ⟨heard ++ [e], by simp [hclose, he.symm], ?_⟩
      change _ = if (s.streams x).status = .closed then _ else _
      rw [hne, hk, if_neg (by simp), hevents]
    next => exact ⟨heard, hclose, hevents⟩

theorem inv_closed {s : Streams} (h : s.Inv) {k : ℕ} (hk : (s.streams k).status = .up) :
    (s.closed k).Inv := by
  have hres := h.resolved hk
  have hp : ∀ x, ((s.closed k).streams x).promise = (s.streams x).promise := by
    intro x
    simp only [closed, emit, set_streams]
    split
    next hx => rw [hx]
    next => rfl
  have hstatus : ∀ x, ((s.closed k).streams x).status =
      if x = k then .closed else (s.streams x).status := by
    intro x
    simp only [closed, emit, set_streams]
    split
    · rfl
    · rfl
  have hevents : ∀ x, (s.closed k).eventsOf x =
      if x = k then s.eventsOf x ++ [.close] else s.eventsOf x := by
    intro x
    exact emit_eventsOf _ k x .close
  have hok : Stream.Ok { s.streams k with status := .closed } := by
    simp [Stream.Ok, hres]
  refine ⟨⟨?_, ?_, ?_, h.sent⟩, ok_set h hok, born_set h (by simp [hres]) (by simp [hres]), ?_, h.nodup⟩
  · intro x hx
    rw [hp] at hx
    have hne : x ≠ k := by
      rintro rfl
      exact hx hres
    rw [hevents, if_neg hne]
    exact h.silent x hx
  · intro x hx
    rw [hp] at hx
    obtain ⟨heard, hclose, heq⟩ := h.closes x hx
    refine ⟨heard, hclose, ?_⟩
    rw [hevents, hstatus]
    split
    next hne =>
      rw [hne, hk, if_neg (by simp)] at heq
      rw [if_pos rfl, hne, heq]
    next => exact heq
  · intro x hx
    simp only [closed] at hx
    split at hx
    · contradiction
    next hcur =>
      have hne : x ≠ k := by
        rintro rfl
        exact hcur hx
      rw [hstatus, if_neg hne]
      exact h.current x hx
  · intro x
    rw [hp]
    exact h.mem x

theorem inv_broken {s : Streams} (h : s.Inv) {k : ℕ} (hk : (s.streams k).status = .up)
    (destroyed : Bool) : (s.broken k destroyed).Inv := inv_flags h rfl rfl hk

theorem inv_write {s : Streams} (h : s.Inv) (bytes : Bytes) : (s.write bytes).1.Inv := by
  unfold write
  split
  next => exact h
  next k hcur =>
    obtain ⟨hlast, hup⟩ := h.current k hcur
    split
    · exact h
    · split
      · exact inv_broken h hup true
      · refine ⟨⟨h.silent, h.closes, h.current, ?_⟩, h.ok, h.born, h.mem, h.nodup⟩
        intro w hw
        rcases List.mem_append.mp hw with hold | hnew
        · exact h.sent w hold
        · rw [List.mem_singleton] at hnew
          rw [hnew]
          exact (h.mem k).mpr (h.resolved hup)

theorem inv_close {s : Streams} (h : s.Inv) : s.close.1.Inv := by
  unfold close
  split
  next => exact h
  next k hcur =>
    split
    · refine ⟨⟨h.silent, h.closes, ?_, h.sent⟩, h.ok, h.born, h.mem, h.nodup⟩
      intro x hx
      cases hx
    · exact inv_broken h (h.current k hcur).2 false

theorem inv_act {s t : Streams} (h : s.Inv) (ht : s.Act t) : t.Inv := by
  cases ht with
  | idle => exact h
  | begin => exact inv_begin h
  | @reject k hk message destroyed =>
    have hdialed := (h.ok k).dialed hk
    refine inv_down h (by simp [hk]) (by simp [hk]) ?_ (by simp) (by simp)
    simp [Stream.Ok, hdialed, Stream.dialed]
  | resolve hk => exact inv_resolve h hk
  | data hk chunk => exact inv_emit h hk (by simp)
  | @error k hk message =>
    have hne : TransportEvent.error message ≠ .close := by simp
    have hflags : (s.set k { s.streams k with destroyed := true, errored := true }).Inv :=
      inv_flags h rfl rfl hk
    refine inv_emit hflags ?_ hne
    rw [set_streams, if_pos rfl]
    exact hk
  | closed hk => exact inv_closed h hk
  | gone message hk =>
    refine inv_down h (by simp [hk]) (by simp [hk]) ?_ (by simp [hk]) (by simp [hk])
    simp [Stream.Ok, hk]
  | broken hk destroyed => exact inv_broken h hk destroyed
  | write bytes => exact inv_write h bytes
  | close => exact inv_close h

end Streams

end UnoQ.Transport
