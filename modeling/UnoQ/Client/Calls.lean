import UnoQ.Client.Link
import UnoQ.Lib.History
import UnoQ.Lib.Transition

/-!
# Outbound calls

The half of `Bridge` that `callWithOptions` lives in: the `pending` map, the message
counter, the timers, and the retry loop of every invocation. An invocation runs up to
its next `await`; what resumes it is an event of its own, however late it comes.
-/

namespace UnoQ.Client
open Codec Transition History

def DEFAULT_TIMEOUT_MS : ℤ := 5000

structure CallOptions where
  timeoutMs : Option ℤ
  idempotent : Option Bool

/-- `encoding` is whatever the codec threw. -/
inductive BridgeError
  | remote (message : String)
  | timeout (method : String) (timeoutMs : ℤ)
  | connection (message : String)
  | encoding

def BridgeError.isConnectionError : BridgeError → Bool
  | .connection _ => true
  | _ => false

inductive Settlement
  | result (value : JsValue)
  | failure (error : BridgeError)

/-- One promise made by `attempt`. An attempt rejected for want of a connection has no id. `serial`
counts the ids allocated up to its own. -/
structure Attempt where
  call : ℕ
  id : Option ℕ
  serial : ℕ
  timer : Option ℤ
  settled : Option Settlement

def Attempt.unborn : Attempt := ⟨0, none, 0, none, none⟩

/-- Where an invocation of `callWithOptions` stands; `waiting` is `waitForReconnect`, and `listening`
tells whether its listener is still attached. -/
inductive Pc
  | unused
  | awaiting (attempt : ℕ)
  | waiting (due : ℤ) (listening : Bool)
  | woken (reconnected : Bool)
  | done (outcome : Settlement)

structure Call where
  method : String
  params : List JsValue
  timeoutMs : ℤ
  idempotent : Bool
  deadline : ℤ
  pc : Pc

def Call.unused : Call := ⟨"", [], 0, false, 0, .unused⟩

/-- What happened, for the record. `wrote` is a REQUEST handed to the transport, `via` the id of the
RESPONSE that settled an attempt, `closed` the end of `onTransportClose`. -/
inductive Happening
  | started (call attempt : ℕ)
  | wrote (call attempt id : ℕ)
  | settled (call attempt : ℕ) (via : Option ℕ) (settlement : Settlement)
  | reconnect
  | closed

structure Calls where
  now : ℤ
  connected : Bool
  msgid : ℕ
  allocated : ℕ
  pending : InsertMap ℕ ℕ
  attempts : ℕ → Attempt
  nextAttempt : ℕ
  calls : ℕ → Call
  nextCall : ℕ
  log : List Happening

/-- The next message id; it wraps at 2^31. -/
def nextMsgId (msgid : ℕ) : ℕ := (msgid + 1) &&& 0x7fffffff

theorem nextMsgId_eq_mod (msgid : ℕ) : nextMsgId msgid = (msgid + 1) % 2 ^ 31 :=
  Nat.and_two_pow_sub_one_eq_mod (msgid + 1) 31

namespace Calls

def setPc (c : Calls) (k : ℕ) (pc : Pc) : Calls :=
  { c with calls := Function.update c.calls k { c.calls k with pc := pc } }

/-- What settling an attempt adds to the record: a promise is settled only once. -/
def settling (c : Calls) (a : ℕ) (via : Option ℕ) (r : Settlement) : List Happening :=
  match (c.attempts a).settled with
  | none => [.settled (c.attempts a).call a via r]
  | some _ => []

/-- Clears the timer of an attempt, deletes the entry `id` and settles the attempt's promise. -/
def retire (c : Calls) (id a : ℕ) (via : Option ℕ) (r : Settlement) : Calls :=
  { c with
    pending := c.pending.delete id
    attempts := Function.update c.attempts a
      { c.attempts a with timer := none, settled := (c.attempts a).settled.or (some r) }
    log := c.log ++ c.settling a via r }

/-- The RESPONSE branch of `handleMessage`, from the lookup on. -/
def respond (c : Calls) (msgid : ℕ) (r : Settlement) : Calls :=
  match c.pending.get msgid with
  | none => c
  | some a => c.retire msgid a (some msgid) r

def expire (c : Calls) (a : ℕ) : Calls :=
  match (c.attempts a).id with
  | none => c
  | some id =>
    let call := c.calls (c.attempts a).call
    c.retire id a none (.failure (.timeout call.method call.timeoutMs))

def rejectAll : List (ℕ × ℕ) → Calls → Calls
  | [], c => c
  | p :: rest, c => rejectAll rest (c.retire p.1 p.2 none (.failure (.connection "Socket closed")))

def onTransportClose (c : Calls) : Calls :=
  let c := rejectAll c.pending.entries { c with connected := false }
  { c with log := c.log ++ [.closed] }

def enter (c : Calls) (k : ℕ) (att : Attempt) (more : List Happening) : Calls :=
  { c.setPc k (.awaiting c.nextAttempt) with
    attempts := Function.update c.attempts c.nextAttempt att
    nextAttempt := c.nextAttempt + 1
    log := c.log ++ .started k c.nextAttempt :: more }

/-- The entry and the timer are there before the request is encoded, and stay when that throws. -/
def attempt (mp : Msgpack) (c : Calls) (k : ℕ) : Calls :=
  let a := c.nextAttempt
  let call := c.calls k
  if c.connected then
    let remaining := max 0 (call.deadline - c.now)
    let id := nextMsgId c.msgid
    let timer := some (c.now + setTimeoutDelay remaining)
    let serial := c.allocated + 1
    let c := { c with msgid := id, allocated := serial, pending := c.pending.set id a }
    match encodeRequest mp id call.method call.params with
    | some _ => c.enter k ⟨k, some id, serial, timer, none⟩ [.wrote k a id]
    | none =>
      c.enter k ⟨k, some id, serial, timer, some (.failure .encoding)⟩
        [.settled k a none (.failure .encoding)]
  else
    c.enter k ⟨k, none, 0, none, some (.failure (.connection "Not connected"))⟩
      [.settled k a none (.failure (.connection "Not connected"))]

/-- The REQUEST that `attempt` hands to the transport. -/
def outgoing (mp : Msgpack) (c : Calls) (k : ℕ) : Option JsValue :=
  let message := request (nextMsgId c.msgid) (c.calls k).method (c.calls k).params
  if c.connected ∧ (mp.encode message).isSome then some message else none

def invoke (c : Calls) (method : String) (params : List JsValue) (opts : CallOptions) : Calls :=
  let timeoutMs := opts.timeoutMs.getD DEFAULT_TIMEOUT_MS
  let call : Call := ⟨method, params, timeoutMs, opts.idempotent.getD false, c.now + timeoutMs, .unused⟩
  { c with calls := Function.update c.calls c.nextCall call, nextCall := c.nextCall + 1 }

def callWithOptions (mp : Msgpack) (c : Calls) (method : String) (params : List JsValue)
    (opts : CallOptions) : Calls :=
  (c.invoke method params opts).attempt mp c.nextCall

def caught (c : Calls) (k : ℕ) (err : BridgeError) : Calls :=
  let call := c.calls k
  let remaining := call.deadline - c.now
  if err.isConnectionError = false ∨ call.idempotent = false then c.setPc k (.done (.failure err))
  else if remaining ≤ 0 then
    c.setPc k (.done (.failure (.timeout call.method call.timeoutMs)))
  else c.setPc k (.waiting (c.now + setTimeoutDelay remaining) true)

def ready (c : Calls) (k : ℕ) : Bool :=
  match (c.calls k).pc with
  | .awaiting a => (c.attempts a).settled.isSome
  | .woken _ => true
  | _ => false

def resume (mp : Msgpack) (c : Calls) (k : ℕ) : Calls :=
  match (c.calls k).pc with
  | .awaiting a =>
    match (c.attempts a).settled with
    | none => c
    | some (.result v) => c.setPc k (.done (.result v))
    | some (.failure err) => c.caught k err
  | .woken true => c.attempt mp k
  | .woken false =>
    c.setPc k (.done (.failure (.timeout (c.calls k).method (c.calls k).timeoutMs)))
  | _ => c

/-- Only a retry writes when an invocation resumes. -/
def retries (c : Calls) (k : ℕ) : Bool :=
  match (c.calls k).pc with
  | .woken b => b
  | _ => false

def giveUp (c : Calls) (k : ℕ) : Calls := c.setPc k (.woken false)

def wakeOne (call : Call) : Call :=
  match call.pc with
  | .waiting _ true => { call with pc := .woken true }
  | _ => call

def emitReconnect (c : Calls) : Calls :=
  { c with calls := fun k => wakeOne (c.calls k), log := c.log ++ [.reconnect] }

def unlistenOne (call : Call) : Call :=
  match call.pc with
  | .waiting due _ => { call with pc := .waiting due false }
  | _ => call

def removeAllListeners (c : Calls) : Calls :=
  { c with calls := fun k => unlistenOne (c.calls k) }

/-! ### The machine -/

def initial : Calls where
  now := 0
  connected := true
  msgid := 0
  allocated := 0
  pending := InsertMap.empty
  attempts _ := .unborn
  nextAttempt := 0
  calls _ := .unused
  nextCall := 0
  log := []

inductive Event
  | tick (ms : ℕ)
  | connected
  | callWithOptions (method : String) (params : List JsValue) (opts : CallOptions)
  | respond (msgid : ℕ) (r : Settlement)
  | expire (a : ℕ)
  | onTransportClose
  | resume (k : ℕ)
  | giveUp (k : ℕ)
  | emitReconnect
  | removeAllListeners

def expires (c : Calls) (a : ℕ) : Bool :=
  match (c.attempts a).timer with
  | some due => due ≤ c.now
  | none => false

def givesUp (c : Calls) (k : ℕ) : Bool :=
  match (c.calls k).pc with
  | .waiting due _ => due ≤ c.now
  | _ => false

def enabled (c : Calls) : Event → Bool
  | .expire a => c.expires a
  | .resume k => c.ready k
  | .giveUp k => c.givesUp k
  | _ => true

def apply (mp : Msgpack) (c : Calls) : Event → Calls
  | .tick ms => { c with now := c.now + ms }
  | .connected => { c with connected := true }
  | .callWithOptions method params opts => c.callWithOptions mp method params opts
  | .respond msgid r => c.respond msgid r
  | .expire a => c.expire a
  | .onTransportClose => c.onTransportClose
  | .resume k => c.resume mp k
  | .giveUp k => c.giveUp k
  | .emitReconnect => c.emitReconnect
  | .removeAllListeners => c.removeAllListeners

def machine (mp : Msgpack) : Machine Calls Event :=
  .ofEnabled (· = initial) (fun c e => c.enabled e = true) (apply mp)

end Calls

end UnoQ.Client
