import UnoQ.Client.Answers
import UnoQ.Client.Correlation
import UnoQ.Client.Receiver

/-!
# The bridge

`bridge.ts` as one machine over its three parts: outbound calls, inbound requests with
the link below them, and inbound bytes. An event is a stretch of code that runs without
interruption: a call from outside, a callback of the transport or of a timer, or what
follows an `await`. The loop of `onData` is the exception: user code may run between two
of its messages, so each message is an event, and no callback comes in between.
Listeners of the bridge's own events do not throw; 'error' without a listener does.
-/

namespace UnoQ.Client
open Codec Transition BigEndian

/-- What a bridge runs on: the codec, its reconnect options, and the conversion to a string of a
value that is an object, which throws for some. -/
structure Host where
  mp : Msgpack
  options : ReconnectOptions
  stringOf : JsValue → Option String

namespace Host

def toStr (host : Host) : JsValue → Option String
  | .undefined => some "undefined"
  | .null => some "null"
  | .bool b => some (if b then "true" else "false")
  | .num n => some (host.mp.numberKey n)
  | .str s => some s
  | v => host.stringOf v

def truthy : JsValue → Bool
  | .undefined | .null => false
  | .bool b => b
  | .num (.int i) => i ≠ 0
  | .num .nan => false
  | .str s => s ≠ ""
  | _ => true

/-- The text of an error that is not null: the second element of `[code, message]`, else the error as
a string. -/
def errorText (host : Host) : JsValue → String
  | .arr (_ :: .str message :: _) => message
  | error => (host.toStr error).getD ""

def settlement (host : Host) (error result : JsValue) : Settlement :=
  match error with
  | .undefined | .null => .result result
  | _ => .failure (.remote (host.errorText error))

end Host

/-- A `doReconnect` whose `connect()` has resolved: `dialed` when what follows is due, `registering`
while `reRegister` awaits the call for a method, `returned` or `threw` when it has come to its end and
the rest of `doReconnect` is due. -/
inductive Replay
  | idle
  | dialed
  | registering (todo : List String) (call : ℕ)
  | returned
  | threw
  deriving DecidableEq

def Replay.due : Replay → Bool
  | .dialed | .returned | .threw => true
  | _ => false

/-- A `provide` or `onNotify` that awaits its `$/register`. -/
inductive Registration
  | idle
  | provide (method : String) (handler call : ℕ)
  | onNotify (method : String) (handler call : ℕ)
  deriving DecidableEq

/-- A `close()` that awaits its `$/reset`, or the end of the connection it closes, if any. -/
inductive Closing
  | idle
  | resetting (call : ℕ)
  | ending (conn : Option ℕ)
  deriving DecidableEq

/-- Handlers are numbered; `notified` records which were invoked with what. -/
structure Bridge where
  calls : Calls
  service : Service
  receiver : Receiver
  providers : InsertMap String ℕ
  notifyHandlers : InsertMap String (List ℕ)
  notified : List (ℕ × JsValue)
  errorListener : Bool
  replays : ℕ → Replay
  nextReplay : ℕ
  registrations : ℕ → Registration
  nextRegistration : ℕ
  closings : ℕ → Closing
  nextClosing : ℕ

namespace Bridge

def post (s : Bridge) (message : Option JsValue) : Bridge :=
  { s with service := s.service.post message }

/-! ### Outbound -/

def callWithOptions (host : Host) (s : Bridge) (method : String) (params : List JsValue)
    (opts : CallOptions) : Bridge :=
  let started := s.calls.invoke method params opts
  ({ s with calls := s.calls.callWithOptions host.mp method params opts }).post
    (started.outgoing host.mp s.calls.nextCall)

def call (host : Host) (s : Bridge) (method : String) (params : List JsValue) : Bridge :=
  s.callWithOptions host method params ⟨none, none⟩

def callWithTimeout (host : Host) (s : Bridge) (method : String) (timeout : ℤ)
    (params : List JsValue) : Bridge :=
  s.callWithOptions host method params ⟨some timeout, none⟩

def resumeCall (host : Host) (s : Bridge) (k : ℕ) : Bridge :=
  ({ s with calls := s.calls.resume host.mp k }).post
    (if s.calls.retries k then s.calls.outgoing host.mp k else none)

def notify (host : Host) (s : Bridge) (method : String) (params : List JsValue) : Bridge :=
  s.post (if (encodeNotify host.mp method params).isSome then some (notification method params) else none)

def register (host : Host) (s : Bridge) (method : String) (g : ℕ → Registration) : Bridge :=
  let k := s.calls.nextCall
  let s := s.call host "$/register" [.str method]
  { s with
    registrations := Function.update s.registrations s.nextRegistration (g k)
    nextRegistration := s.nextRegistration + 1 }

def provide (host : Host) (s : Bridge) (method : String) (handler : ℕ) : Bridge :=
  if s.providers.has method then { s with providers := s.providers.set method handler }
  else s.register host method (.provide method handler)

def subscribe (s : Bridge) (method : String) (handler : ℕ) : Bridge :=
  let set := (s.notifyHandlers.get method).getD []
  { s with notifyHandlers :=
      s.notifyHandlers.set method (if handler ∈ set then set else set ++ [handler]) }

/-- The set is there before the registration is awaited. -/
def onNotify (host : Host) (s : Bridge) (method : String) (handler : ℕ) : Bridge :=
  match s.notifyHandlers.get method with
  | some _ => s.subscribe method handler
  | none =>
    let s := { s with notifyHandlers := s.notifyHandlers.set method [] }
    if s.providers.has method then s.subscribe method handler
    else s.register host method (.onNotify method handler)

def unsubscribe (s : Bridge) (method : String) (handler : ℕ) : Bridge :=
  match s.notifyHandlers.get method with
  | none => s
  | some set =>
    { s with notifyHandlers := s.notifyHandlers.set method (set.filter (· ≠ handler)) }

def outcome (s : Bridge) (k : ℕ) : Option Settlement :=
  match (s.calls.calls k).pc with
  | .done r => some r
  | _ => none

def registered (s : Bridge) (g : ℕ) : Bridge :=
  { s with registrations := Function.update s.registrations g .idle }

def resumeRegistration (s : Bridge) (g : ℕ) : Bridge :=
  match s.registrations g with
  | .idle => s
  | .provide method handler k =>
    match s.outcome k with
    | some (.result _) => { s.registered g with providers := s.providers.set method handler }
    | _ => s.registered g
  | .onNotify method handler k =>
    match s.outcome k with
    | some (.result _) => (s.registered g).subscribe method handler
    | _ => s.registered g

/-! ### Inbound -/

def messageType (msg : List JsValue) : Option ℤ :=
  match JsValue.index msg 0 with
  | .num (.int i) => some i
  | _ => none

def pendingId : JsValue → Option ℕ
  | .num (.int i) => if 0 ≤ i then some i.toNat else none
  | _ => none

def methodName : JsValue → Option String
  | .str s => some s
  | _ => none

def provider (s : Bridge) (method : JsValue) : Option (String × ℕ) :=
  (methodName method).bind fun name => (s.providers.get name).map fun h => (name, h)

def subscribers (s : Bridge) (method : JsValue) : List ℕ :=
  ((methodName method).bind s.notifyHandlers.get).getD []

/-- Whether `handleMessage` throws. The error of a RESPONSE and the method of an unregistered REQUEST
are made into texts; `thrower` is the notification handler that throws, if one does. -/
def throws (host : Host) (s : Bridge) (msg : List JsValue) (thrower : Option ℕ) : Bool :=
  let field := JsValue.index msg
  if messageType msg = some (MSG_RESPONSE : ℤ) then
    Host.truthy (field 2) && (host.toStr (field 2)).isNone
  else if messageType msg = some (MSG_REQUEST : ℤ) then
    match s.provider (field 2), host.toStr (field 2) with
    | some _, _ => false
    | none, none => true
    | none, some name => (host.mp.encode (Service.unregisteredReply (field 1) name)).isNone
  else if messageType msg = some (MSG_NOTIFY : ℤ) then
    match thrower with
    | none => false
    | some i => i < (s.subscribers (field 1)).length
  else false

def handleResponse (host : Host) (s : Bridge) (msgid error result : JsValue) : Bridge :=
  if Host.truthy error ∧ (host.toStr error).isNone then s
  else
    match pendingId msgid with
    | none => s
    | some id => { s with calls := s.calls.respond id (host.settlement error result) }

def handleRequest (host : Host) (s : Bridge) (msgid method params : JsValue) : Bridge :=
  let c := s.receiver.conn
  match s.provider method with
  | some (name, handler) => { s with service := s.service.receive c msgid name params handler }
  | none => { s with service := s.service.refuse host.mp c msgid (host.toStr method) }

def handleNotify (s : Bridge) (method params : JsValue) (thrower : Option ℕ) : Bridge :=
  let handlers := s.subscribers method
  let invoked := match thrower with
    | none => handlers
    | some i => handlers.take (i + 1)
  { s with notified := s.notified ++ invoked.map fun h => (h, params) }

def handleMessage (host : Host) (s : Bridge) (msg : List JsValue) (thrower : Option ℕ) : Bridge :=
  let field := JsValue.index msg
  if messageType msg = some (MSG_RESPONSE : ℤ) then s.handleResponse host (field 1) (field 2) (field 3)
  else if messageType msg = some (MSG_REQUEST : ℤ) then
    s.handleRequest host (field 1) (field 2) (field 3)
  else if messageType msg = some (MSG_NOTIFY : ℤ) then s.handleNotify (field 1) (field 2) thrower
  else s

def onData (host : Host) (s : Bridge) (c : ℕ) (chunk : Bytes) : Bridge :=
  { s with receiver := s.receiver.onData host.mp c chunk }

/-- The loop of `onData` takes its next message; an exception ends the loop. -/
def dispatch (host : Host) (s : Bridge) (thrower : Option ℕ) : Bridge :=
  match s.receiver.inbox with
  | .arr msg :: _ =>
    let s' := { s.handleMessage host msg thrower with receiver := s.receiver.next }
    if s.throws host msg thrower then { s' with receiver := s'.receiver.abort } else s'
  | _ => { s with receiver := s.receiver.next }

/-- The head of the inbox makes the loop end with messages still before it. -/
def losesMessages (host : Host) (s : Bridge) (thrower : Option ℕ) : Bool :=
  match s.receiver.inbox with
  | .arr msg :: _ :: _ => s.throws host msg thrower
  | _ => false

/-! ### Connections -/

def onTransportClose (host : Host) (s : Bridge) (c : ℕ) : Bridge :=
  { s with
    calls := s.calls.onTransportClose
    service := s.service.closed host.options c s.calls.now }

def setReplay (s : Bridge) (r : ℕ) (replay : Replay) : Bridge :=
  { s with replays := Function.update s.replays r replay }

def doReconnect (s : Bridge) : Bridge :=
  { s with
    service := { s.service with link := s.service.link.doReconnect s.nextReplay }
    nextReplay := s.nextReplay + 1 }

def opened (s : Bridge) (r : ℕ) : Bridge :=
  { s with service := { s.service with link := s.service.link.opened r } }.setReplay r .dialed

def refused (host : Host) (s : Bridge) (r : ℕ) : Bridge :=
  { s with service := { s.service with
      link := s.service.link.refused host.options s.calls.now r s.errorListener } }

def methods (s : Bridge) : List String :=
  s.providers.keys ++ s.notifyHandlers.keys.filter fun m => !s.providers.has m

def replayNext (host : Host) (s : Bridge) (r : ℕ) : List String → Bridge
  | [] => s.setReplay r .returned
  | m :: rest => (s.call host "$/register" [.str m]).setReplay r (.registering rest s.calls.nextCall)

def connected (s : Bridge) : Bridge :=
  { s with
    calls := { s.calls with connected := true }
    service := { s.service with link := { s.service.link with reconnectAttempt := 0 } } }

def caught (host : Host) (s : Bridge) : Bridge :=
  { s with service := { s.service with
      link := s.service.link.caught host.options s.calls.now s.errorListener } }

/-- `doReconnect` or `reRegister` after an `await`. A registration that failed is reported as an
'error', which throws without a listener; the `catch` of `doReconnect` runs after that, in a turn of
its own. -/
def resumeReplay (host : Host) (s : Bridge) (r : ℕ) : Bridge :=
  match s.replays r with
  | .idle => s
  | .dialed => s.connected.replayNext host r s.methods
  | .registering todo k =>
    match s.outcome k with
    | some (.failure _) => if s.errorListener then s.replayNext host r todo else s.setReplay r .threw
    | _ => s.replayNext host r todo
  | .returned => { s with calls := s.calls.emitReconnect }.setReplay r .idle
  | .threw => (s.caught host).setReplay r .idle

def setClosing (s : Bridge) (x : ℕ) (closing : Closing) : Bridge :=
  { s with closings := Function.update s.closings x closing }

def closeTransport (s : Bridge) (x : ℕ) : Bridge :=
  let l := s.service.link
  let conn := l.socket.filter fun c => !(l.conns c).destroyed
  { s with service := { s.service with link := l.close } }.setClosing x (.ending conn)

def close (host : Host) (s : Bridge) : Bridge :=
  let x := s.nextClosing
  let s' := { s with service := s.service.shut host.mp s.calls.connected, nextClosing := x + 1 }
  if s.calls.connected then
    (s'.callWithTimeout host "$/reset" 500 []).setClosing x (.resetting s.calls.nextCall)
  else s'.closeTransport x

def removeAllListeners (s : Bridge) : Bridge :=
  { s with calls := s.calls.removeAllListeners, errorListener := false }

def resumeClose (s : Bridge) (x : ℕ) : Bridge :=
  match s.closings x with
  | .idle => s
  | .resetting _ => s.closeTransport x
  | .ending _ => s.removeAllListeners.setClosing x .idle

/-! ### The machine -/

def initial : Bridge where
  calls := .initial
  service := .initial
  receiver := .initial
  providers := InsertMap.empty
  notifyHandlers := InsertMap.empty
  notified := []
  errorListener := false
  replays _ := .idle
  nextReplay := 0
  registrations _ := .idle
  nextRegistration := 0
  closings _ := .idle
  nextClosing := 0

inductive Event
  | tick (ms : ℕ)
  | callWithOptions (method : String) (params : List JsValue) (opts : CallOptions)
  | notify (method : String) (params : List JsValue)
  | provide (method : String) (handler : ℕ)
  | onNotify (method : String) (handler : ℕ)
  | unsubscribe (method : String) (handler : ℕ)
  | listen (present : Bool)
  | close
  | dispatch (thrower : Option ℕ)
  | settle (t : ℕ) (outcome : Outcome)
  | data (c : ℕ) (chunk : Bytes)
  | broken (c : ℕ) (destroyed : Bool)
  | closed (c : ℕ)
  | opened (r : ℕ)
  | refused (r : ℕ)
  | callTimer (a : ℕ)
  | waitTimer (k : ℕ)
  | reconnectTimer
  | resumeCall (k : ℕ)
  | resumeRegistration (g : ℕ)
  | resumeReplay (r : ℕ)
  | resumeClose (x : ℕ)

/-- No code is under way: the loop of `onData` is done. -/
def quiet (s : Bridge) : Bool := s.receiver.inbox.isEmpty

/-- What follows a resolved `connect()`, or the end of `reRegister`, runs before the next callback. -/
def idle (s : Bridge) : Bool := s.quiet ∧ ∀ r < s.nextReplay, (s.replays r).due = false

def registrationReady (s : Bridge) (g : ℕ) : Bool :=
  match s.registrations g with
  | .idle => false
  | .provide _ _ k => (s.outcome k).isSome
  | .onNotify _ _ k => (s.outcome k).isSome

def replayReady (s : Bridge) (r : ℕ) : Bool :=
  match s.replays r with
  | .idle => false
  | .dialed => true
  | .registering _ k => (s.outcome k).isSome
  | .returned | .threw => true

def closingReady (s : Bridge) (x : ℕ) : Bool :=
  match s.closings x with
  | .idle => false
  | .resetting k => (s.outcome k).isSome
  | .ending none => true
  | .ending (some c) => (s.service.link.conns c).status = .closed

/-- A handler settles in a turn of its own, or throws as soon as it is called. -/
def settles (s : Bridge) (t : ℕ) : Outcome → Bool
  | .returned _ => s.quiet
  | .thrown _ => s.quiet || decide (t + 1 = s.service.nextTask)

def enabled (s : Bridge) : Event → Bool
  | .dispatch _ => !s.quiet
  | .settle t o => s.settles t o && s.service.enabled (.settle t (.thrown none))
  | .data c _ => s.idle && s.service.reads c
  | .broken c _ | .closed c => s.idle && decide ((s.service.link.conns c).status = .opened)
  | .opened r | .refused r => s.idle && decide (r ∈ s.service.link.dialing)
  | .callTimer a => s.idle && s.calls.expires a
  | .waitTimer k => s.idle && s.calls.givesUp k
  | .reconnectTimer => s.idle &&
      match s.service.link.reconnectTimer with
      | none => false
      | some due => due ≤ s.calls.now
  | .resumeCall k => s.quiet && s.calls.ready k
  | .resumeRegistration g => s.quiet && s.registrationReady g
  | .resumeReplay r => s.quiet && s.replayReady r
  | .resumeClose x => s.quiet && s.closingReady x
  | _ => true

def apply (host : Host) (s : Bridge) : Event → Bridge
  | .tick ms => { s with calls := { s.calls with now := s.calls.now + ms } }
  | .callWithOptions method params opts => s.callWithOptions host method params opts
  | .notify method params => s.notify host method params
  | .provide method handler => s.provide host method handler
  | .onNotify method handler => s.onNotify host method handler
  | .unsubscribe method handler => s.unsubscribe method handler
  | .listen present => { s with errorListener := present }
  | .close => s.close host
  | .dispatch thrower => s.dispatch host thrower
  | .settle t outcome => { s with service := s.service.settle host.mp t outcome }
  | .data c chunk => s.onData host c chunk
  | .broken c destroyed =>
    { s with service := { s.service with link := s.service.link.broken c destroyed } }
  | .closed c => s.onTransportClose host c
  | .opened r => s.opened r
  | .refused r => s.refused host r
  | .callTimer a => { s with calls := s.calls.expire a }
  | .waitTimer k => { s with calls := s.calls.giveUp k }
  | .reconnectTimer => s.doReconnect
  | .resumeCall k => s.resumeCall host k
  | .resumeRegistration g => s.resumeRegistration g
  | .resumeReplay r => s.resumeReplay host r
  | .resumeClose x => s.resumeClose x

def machine (host : Host) : Machine Bridge Event :=
  .ofEnabled (· = initial) (fun s e => s.enabled e = true) (apply host)

end Bridge

/-- A host with the reference codec and the default reconnect options. -/
def referenceHost : Host := ⟨reference, ⟨true, 200, 5000⟩, fun _ => some "[object Object]"⟩

end UnoQ.Client
