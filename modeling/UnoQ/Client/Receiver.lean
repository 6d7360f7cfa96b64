import UnoQ.Codec.StreamDecoder
import UnoQ.Lib.Transition

/-!
# Inbound bytes

The half of `Bridge` that `onData` lives in. There is one decoder for the whole life of
a bridge and nothing resets it, so bytes left over from one connection come before
those of the next. The connections are apart as long as no such bytes are left.
-/

namespace UnoQ.Client
open Codec Transition BigEndian

def isArray : JsValue → Bool
  | .arr _ => true
  | _ => false

/-- `inbox` is what the loop of `onData` has still before it, decoded from a chunk of `conn`; the
two lists record, by connection, the chunks received and the messages handled. -/
structure Receiver where
  decoder : StreamDecoder
  conn : ℕ
  inbox : List JsValue
  chunks : List (ℕ × Bytes)
  handled : List (ℕ × JsValue)

namespace Receiver

def onData (mp : Msgpack) (r : Receiver) (c : ℕ) (chunk : Bytes) : Receiver :=
  let out := r.decoder.feed mp chunk
  { r with decoder := out.2, conn := c, inbox := out.1, chunks := r.chunks ++ [(c, chunk)] }

/-- The loop takes the next message; it passes over what is not an array. -/
def next (r : Receiver) : Receiver :=
  match r.inbox with
  | [] => r
  | msg :: rest =>
    { r with
      inbox := rest
      handled := r.handled ++ if isArray msg then [(r.conn, msg)] else [] }

def abort (r : Receiver) : Receiver := { r with inbox := [] }

def initial : Receiver := ⟨.fresh, 0, [], [], []⟩

inductive Event
  | onData (c : ℕ) (chunk : Bytes)
  | next
  | abort

def enabled (r : Receiver) : Event → Bool
  | .onData _ _ => r.inbox.isEmpty
  | _ => true

def apply (mp : Msgpack) (r : Receiver) : Event → Receiver
  | .onData c chunk => r.onData mp c chunk
  | .next => r.next
  | .abort => r.abort

def machine (mp : Msgpack) : Machine Receiver Event :=
  .ofEnabled (· = initial) (fun r e => r.enabled e = true) (apply mp)

/-! ### One connection at a time -/

def ofConn {α : Type} (c : ℕ) (l : List (ℕ × α)) : List α :=
  (l.filter fun p => decide (p.1 = c)).map Prod.snd

/-- What a decoder of its own makes of the bytes of a connection. -/
def alone (mp : Msgpack) (r : Receiver) (c : ℕ) : List JsValue × StreamDecoder :=
  StreamDecoder.feedAll mp .fresh (ofConn c r.chunks)

def waiting (r : Receiver) (c : ℕ) : List JsValue := if r.conn = c then r.inbox else []

/-- The messages handled for a connection, and those the loop has still before it, are the arrays a
decoder of its own would have produced. -/
def Uncontaminated (mp : Msgpack) (r : Receiver) : Prop :=
  ∀ c, ofConn c r.handled ++ (r.waiting c).filter isArray = (r.alone mp c).1.filter isArray

/-- Whenever the bytes change over to another connection no partial message is buffered, and no
exception leaves the loop early. -/
def Divided (r : Receiver) : Event → Prop
  | .onData c _ => c = r.conn ∨ r.decoder.buffer = []
  | .next => True
  | .abort => r.inbox = []

structure Apart (mp : Msgpack) (r : Receiver) : Prop where
  messages : r.Uncontaminated mp
  current : (r.alone mp r.conn).2 = r.decoder
  others : ∀ c, c ≠ r.conn → (r.alone mp c).2 = .fresh

theorem ofConn_append {α : Type} (c : ℕ) (l l' : List (ℕ × α)) :
    ofConn c (l ++ l') = ofConn c l ++ ofConn c l' := by
  simp [ofConn]

theorem ofConn_single {α : Type} (c x : ℕ) (a : α) :
    ofConn c [(x, a)] = if x = c then [a] else [] := by
  by_cases h : x = c <;> simp [ofConn, h]

theorem alone_onData (mp : Msgpack) (r : Receiver) (c x : ℕ) (chunk : Bytes) :
    (r.onData mp x chunk).alone mp c =
      if x = c then
        ((r.alone mp c).1 ++ ((r.alone mp c).2.feed mp chunk).1, ((r.alone mp c).2.feed mp chunk).2)
      else r.alone mp c := by
  have hchunks : (r.onData mp x chunk).chunks = r.chunks ++ [(x, chunk)] := rfl
  unfold alone
  rw [hchunks, ofConn_append, ofConn_single]
  split
  · rw [StreamDecoder.feedAll_append]
    simp [StreamDecoder.feedAll]
  · rw [List.append_nil]

theorem apart_onData {mp : Msgpack} {r : Receiver} (h : r.Apart mp) {c : ℕ} {chunk : Bytes}
    (hempty : r.inbox = []) (hd : c = r.conn ∨ r.decoder.buffer = []) :
    (r.onData mp c chunk).Apart mp := by
  -- Up to now a decoder of the connection's own would be in the state of the shared one.
  have hstate : (r.alone mp c).2 = r.decoder := by
    by_cases hc : c = r.conn
    · rw [hc]
      exact h.current
    · have hb : r.decoder.buffer = [] := hd.resolve_left hc
      have hfresh : r.decoder = .fresh := congrArg StreamDecoder.mk hb
      rw [h.others c hc, hfresh]
  have hwait : ∀ x, (r.waiting x).filter isArray = [] := by
    intro x
    unfold waiting
    split <;> simp [hempty]
  constructor
  · intro x
    have hx := h.messages x
    rw [hwait, List.append_nil] at hx
    change ofConn x r.handled ++ (if c = x then (r.decoder.feed mp chunk).1 else []).filter isArray = _
    rw [alone_onData, hx]
    split
    next hcx =>
      subst hcx
      rw [hstate, List.filter_append]
    next => simp
  · change ((r.onData mp c chunk).alone mp c).2 = (r.decoder.feed mp chunk).2
    rw [alone_onData, if_pos rfl, hstate]
  · intro x hx
    have hxc : c ≠ x := fun he => hx he.symm
    rw [alone_onData, if_neg hxc]
    by_cases hxr : x = r.conn
    · have hb : r.decoder.buffer = [] := hd.resolve_left (fun he => hxc (he.trans hxr.symm))
      rw [hxr, h.current]
      exact congrArg StreamDecoder.mk hb
    · exact h.others x hxr

theorem alone_next (mp : Msgpack) (r : Receiver) (c : ℕ) : r.next.alone mp c = r.alone mp c := by
  unfold next alone
  split <;> rfl

theorem next_conn (r : Receiver) : r.next.conn = r.conn ∧ r.next.decoder = r.decoder := by
  unfold next
  split <;> exact ⟨rfl, rfl⟩

theorem apart_next {mp : Msgpack} {r : Receiver} (h : r.Apart mp) : r.next.Apart mp := by
  constructor
  · intro c
    rw [alone_next, ← h.messages c]
    cases hin : r.inbox with
    | nil =>
      have hsame : r.next = r := by
        unfold next
        rw [hin]
      rw [hsame]
    | cons msg rest =>
      have hnext : r.next = { r with
          inbox := rest, handled := r.handled ++ if isArray msg then [(r.conn, msg)] else [] } := by
        unfold next
        rw [hin]
      rw [hnext]
      unfold waiting
      dsimp only
      rw [ofConn_append, List.append_assoc, hin]
      congr 1
      by_cases hm : isArray msg = true
      · rw [if_pos hm, ofConn_single]
        by_cases hc : r.conn = c
        · simp [hc, hm]
        · simp [hc]
      · rw [if_neg hm]
        by_cases hc : r.conn = c
        · simp [hc, hm, ofConn]
        · simp [hc, ofConn]
  · rw [alone_next, (next_conn r).1, (next_conn r).2]
    exact h.current
  · intro c hc
    rw [(next_conn r).1] at hc
    rw [alone_next]
    exact h.others c hc

theorem apart_apply {mp : Msgpack} {r : Receiver} (h : r.Apart mp) (e : Event)
    (he : r.enabled e = true) (hd : r.Divided e) : (r.apply mp e).Apart mp := by
  cases e with
  | onData c chunk => exact apart_onData h (List.isEmpty_iff.mp he) hd
  | next => exact apart_next h
  | abort =>
    have hsame : r.abort = r := by
      unfold abort
      rw [← (show r.inbox = [] from hd)]
    change r.abort.Apart mp
    rw [hsame]
    exact h

theorem apart_reach {mp : Msgpack} {r : Receiver}
    (h : (machine mp).Reach (fun r e _ => r.Divided e) r) : r.Apart mp := by
  refine h.invariant ?_ ?_
  · rintro r rfl
    refine ⟨fun c => ?_, rfl, fun _ _ => rfl⟩
    have hwait : initial.waiting c = [] := by
      unfold waiting
      split <;> rfl
    rw [hwait]
    rfl
  · intro r e t _ ha hs hd
    obtain ⟨he, rfl⟩ := Machine.ofEnabled_step.mp hs
    exact apart_apply ha e he hd

end Receiver

end UnoQ.Client
