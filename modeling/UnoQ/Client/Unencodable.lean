import UnoQ.Client.Frames

/-!
# A call that cannot be encoded

An attempt arms its timer and stores its entry, and then encodes the request. When the codec throws, the
promise is rejected and both stay: the timer runs to its end, and until then the entry answers to its id.
-/

namespace UnoQ.Client
open Codec Transition

namespace Calls

variable {mp : Msgpack} {c : Calls} {method : String} {params : List JsValue} {opts : CallOptions}

theorem resume_failed {k a : ℕ} {err : BridgeError} (hpc : (c.calls k).pc = .awaiting a)
    (hs : (c.attempts a).settled = some (.failure err)) (mp : Msgpack) :
    c.resume mp k = c.caught k err := by
  unfold resume
  simp only [hpc, hs]

theorem attempt_unencodable {k : ℕ} (hconn : c.connected = true)
    (henc : encodeRequest mp (nextMsgId c.msgid) (c.calls k).method (c.calls k).params = none) :
    ((c.attempt mp k).calls k).pc = .awaiting c.nextAttempt ∧
      ((c.attempt mp k).attempts c.nextAttempt).settled = some (.failure .encoding) ∧
      (c.attempt mp k).pending.get (nextMsgId c.msgid) = some c.nextAttempt := by
  have heq : c.attempt mp k = { c with
      msgid := nextMsgId c.msgid
      allocated := c.allocated + 1
      pending := c.pending.set (nextMsgId c.msgid) c.nextAttempt }.enter k
        ⟨k, some (nextMsgId c.msgid), c.allocated + 1,
          some (c.now + setTimeoutDelay (max 0 ((c.calls k).deadline - c.now))),
          some (.failure .encoding)⟩
        [.settled k c.nextAttempt none (.failure .encoding)] := by
    simp only [attempt, hconn, henc, if_true]
  rw [heq]
  simp [enter, setPc]

/-- Without a connection the attempt ends before the codec is asked. -/
theorem attempt_unconnected (mp : Msgpack) (k : ℕ) (hconn : c.connected = false) :
    ((c.attempt mp k).calls k).pc = .awaiting c.nextAttempt ∧
      ((c.attempt mp k).attempts c.nextAttempt).settled =
        some (.failure (.connection "Not connected")) ∧
      (c.attempt mp k).pending = c.pending ∧
      ∀ a, ((c.attempt mp k).attempts a).timer =
        if a = c.nextAttempt then none else (c.attempts a).timer := by
  have heq : c.attempt mp k = c.enter k
      ⟨k, none, 0, none, some (.failure (.connection "Not connected"))⟩
      [.settled k c.nextAttempt none (.failure (.connection "Not connected"))] := by
    simp only [attempt, hconn, Bool.false_eq_true, if_false]
  rw [heq]
  refine ⟨by simp [enter, setPc], by simp [enter], rfl, fun a => ?_⟩
  simp only [enter, Function.update_apply]
  split <;> rfl

theorem caught_kept (c : Calls) (k : ℕ) (err : BridgeError) :
    (c.caught k err).pending = c.pending ∧ (c.caught k err).attempts = c.attempts := by
  unfold caught
  dsimp only
  split
  · exact ⟨rfl, rfl⟩
  · split <;> exact ⟨rfl, rfl⟩

theorem caught_connection (c : Calls) (k : ℕ) (message : String) :
    ((c.caught k (.connection message)).calls k).pc ≠ .done (.failure .encoding) := by
  unfold caught
  dsimp only
  split
  · simp [setPc]
  · split <;> simp [setPc]

end Calls

namespace Bridge

/-- `callWithOptions` up to the moment at which its first attempt has failed or is under way. -/
def called (host : Host) (s : Bridge) (method : String) (params : List JsValue) (opts : CallOptions) :
    Bridge :=
  (s.callWithOptions host method params opts).resumeCall host s.calls.nextCall

/-- The caller gets what the codec threw. -/
def RejectsEncoding (host : Host) (s : Bridge) (method : String) (params : List JsValue)
    (opts : CallOptions) : Prop :=
  (s.called host method params opts).outcome s.calls.nextCall = some (.failure .encoding)

/-- The same entries are pending as before, and the same timers armed. -/
structure Untouched (host : Host) (s : Bridge) (method : String) (params : List JsValue)
    (opts : CallOptions) : Prop where
  pending : (s.called host method params opts).calls.pending = s.calls.pending
  timers : ∀ a, ((s.called host method params opts).calls.attempts a).timer =
    (s.calls.attempts a).timer

structure NoTrace (host : Host) (s : Bridge) (method : String) (params : List JsValue)
    (opts : CallOptions) : Prop where
  rejected : s.RejectsEncoding host method params opts
  untouched : s.Untouched host method params opts

variable {host : Host} {s : Bridge} {method : String} {params : List JsValue} {opts : CallOptions}

theorem called_calls (host : Host) (s : Bridge) (method : String) (params : List JsValue)
    (opts : CallOptions) : (s.called host method params opts).calls =
      ((s.calls.invoke method params opts).attempt host.mp s.calls.nextCall).resume host.mp
        s.calls.nextCall := rfl

theorem encode_invoke (henc : encodeRequest host.mp (nextMsgId s.calls.msgid) method params = none) :
    let c := s.calls.invoke method params opts
    encodeRequest host.mp (nextMsgId c.msgid) (c.calls s.calls.nextCall).method
      (c.calls s.calls.nextCall).params = none := by
  simpa [Calls.invoke] using henc

/-- The call is rejected with that error if and only if it comes to the encoder at all. -/
theorem rejectsEncoding_iff
    (henc : encodeRequest host.mp (nextMsgId s.calls.msgid) method params = none) :
    s.RejectsEncoding host method params opts ↔ s.calls.connected = true := by
  unfold RejectsEncoding
  rw [outcome_eq_some, called_calls]
  cases hconn : s.calls.connected with
  | true =>
    obtain ⟨hpc, hs, -⟩ := Calls.attempt_unencodable (c := s.calls.invoke method params opts) hconn
      (encode_invoke henc)
    rw [Calls.resume_failed hpc hs]
    simp [Calls.caught, BridgeError.isConnectionError, Calls.setPc]
  | false =>
    obtain ⟨hpc, hs, -⟩ := Calls.attempt_unconnected host.mp s.calls.nextCall
      (c := s.calls.invoke method params opts) hconn
    rw [Calls.resume_failed hpc hs]
    exact iff_of_false (Calls.caught_connection _ _ _) Bool.false_ne_true

/-- Entries and timers stay as they were if and only if it does not. -/
theorem untouched_iff (hi : s.calls.Inv)
    (henc : encodeRequest host.mp (nextMsgId s.calls.msgid) method params = none) :
    s.Untouched host method params opts ↔ s.calls.connected = false := by
  cases hconn : s.calls.connected with
  | true =>
    obtain ⟨hpc, hs, hget⟩ := Calls.attempt_unencodable (c := s.calls.invoke method params opts) hconn
      (encode_invoke henc)
    refine ⟨fun h => ?_, fun h => by contradiction⟩
    have hpending := h.pending
    rw [called_calls, Calls.resume_failed hpc hs, (Calls.caught_kept ..).1] at hpending
    rw [hpending] at hget
    have hlt := (hi.mapped _ _ hget).1
    exact absurd hlt (Nat.lt_irrefl s.calls.nextAttempt)
  | false =>
    obtain ⟨hpc, hs, hpending, htimers⟩ := Calls.attempt_unconnected host.mp
      s.calls.nextCall (c := s.calls.invoke method params opts) hconn
    refine ⟨fun _ => rfl, fun _ => ⟨?_, fun a => ?_⟩⟩
    · rw [called_calls, Calls.resume_failed hpc hs, (Calls.caught_kept ..).1]
      exact hpending
    · rw [called_calls, Calls.resume_failed hpc hs, (Calls.caught_kept ..).2, htimers]
      split
      next ha =>
        have hnew : s.calls.nextAttempt ≤ a := Nat.le_of_eq ha.symm
        rw [hi.unborn a hnew]
        rfl
      next => rfl

/-- No call that cannot be encoded is rejected with that error and leaves nothing behind. -/
theorem not_noTrace (host : Host) {s : Bridge} (h : (machine host).Reach always s) (method : String)
    (params : List JsValue) (opts : CallOptions)
    (henc : encodeRequest host.mp (nextMsgId s.calls.msgid) method params = none) :
    ¬ s.NoTrace host method params opts := by
  rintro ⟨hrejected, huntouched⟩
  have hup := (rejectsEncoding_iff henc).mp hrejected
  have hdown := (untouched_iff (calls_inv h) henc).mp huntouched
  rw [hup] at hdown
  contradiction

/-- A function among the parameters, on a bridge that is connected. -/
theorem foreign_not_noTrace :
    ¬ initial.NoTrace referenceHost "led" [.foreign 0] ⟨none, none⟩ :=
  not_noTrace referenceHost (.init rfl) "led" [.foreign 0] ⟨none, none⟩ (by decide)

theorem foreign_pending : ¬ ∀ (host : Host) (s : Bridge), (machine host).Reach always s →
    ∀ method params opts, encodeRequest host.mp (nextMsgId s.calls.msgid) method params = none →
      s.NoTrace host method params opts := by
  intro hall
  have htrace := hall referenceHost initial (.init rfl) "led" [.foreign 0] ⟨none, none⟩ (by decide)
  have hget : (initial.called referenceHost "led" [.foreign 0] ⟨none, none⟩).calls.pending.get 1 =
      some 0 := by decide
  rw [htrace.untouched.pending] at hget
  exact absurd hget (by decide)

end Bridge
end UnoQ.Client
