import UnoQ.Client.Calls
import UnoQ.Codec.JsValue
import UnoQ.Lib.InsertMap
import UnoQ.Lib.Transition
import UnoQ.Ssh.NodeText

/-!
# Deferred requests

A Trigger node in Wait-for-Respond mode answers a REQUEST with a promise, which it leaves
in `PendingRequests` under the msgid until a Respond node takes it or its timer fires. The
map is one for the process: all boards and connections share it. `Number`, `JSON.parse`
and the conversion of numbers to text are the platform's.
-/

namespace UnoQ.Nodes
open Codec Transition Client
open Ssh (trim)

structure Platform where
  number : String → JsNumber
  parseJson : String → Except String JsValue
  numberText : JsNumber → String

abbrev Item := List (String × JsValue)

/-- An own property; of what is not an object, `undefined`. -/
def prop (name : String) : JsValue → JsValue
  | .obj props => (InsertMap.lookup name props).getD .undefined
  | _ => .undefined

/-! ### `PendingRequests.ts` -/

/-- An entry stands for the `resolve`, the `reject` and the timer of the request with this number. -/
structure PendingRequests where
  entries : InsertMap JsNumber ℕ

namespace PendingRequests

def register (p : PendingRequests) (msgid : JsNumber) (entry : ℕ) : PendingRequests :=
  ⟨p.entries.set msgid entry⟩

def take (p : PendingRequests) (msgid : JsNumber) : Option ℕ × PendingRequests :=
  match p.entries.get msgid with
  | some entry => (some entry, ⟨p.entries.delete msgid⟩)
  | none => (none, p)

def has (p : PendingRequests) (msgid : JsNumber) : Bool := p.entries.has msgid

end PendingRequests

/-! ### The requests -/

def DEFAULT_METADATA_FIELD : String := "_unoQRequest"

/-- What a Trigger node has from its parameters. -/
structure DeferredTrigger where
  method : String
  transport : String
  timeoutMs : ℤ

inductive Timer
  | armed (due : ℤ)
  | fired
  | cleared
  deriving DecidableEq

inductive Settlement
  | resolved (value : JsValue)
  | rejected (message : String)

/-- A REQUEST that the handler of a Trigger node was called with; `settlements` are the calls of its
promise's `resolve` and `reject`. The router numbers the requests of a connection. -/
structure Request where
  trigger : DeferredTrigger
  connection : ℕ
  msgid : ℕ
  params : JsValue
  timer : Timer
  settlements : List Settlement

def Request.unborn : Request := ⟨⟨"", "", 0⟩, 0, 0, .undefined, .cleared, []⟩

/-- The item that the Trigger node emits. -/
def Request.item (q : Request) : Item :=
  [("method", .str q.trigger.method), ("params", q.params),
    (DEFAULT_METADATA_FIELD,
      .obj [("msgid", .nat q.msgid), ("transport", .str q.trigger.transport)])]

def noRespondNode (timeoutMs : ℤ) : String :=
  "No Arduino UNO Q Respond node answered within " ++ toString timeoutMs ++ " ms"

structure Requests where
  pending : PendingRequests
  request : ℕ → Request
  next : ℕ
  now : ℤ

namespace Requests

def initial : Requests := ⟨⟨InsertMap.empty⟩, fun _ => .unborn, 0, 0⟩

def setRequest (s : Requests) (r : ℕ) (q : Request) : Requests :=
  { s with request := Function.update s.request r q }

def setTimer (s : Requests) (r : ℕ) (timer : Timer) : Requests :=
  s.setRequest r { s.request r with timer := timer }

def clearTimeout (s : Requests) (r : ℕ) : Requests :=
  match (s.request r).timer with
  | .armed _ => s.setTimer r .cleared
  | _ => s

def settle (s : Requests) (r : ℕ) (x : Settlement) : Requests :=
  s.setRequest r { s.request r with settlements := (s.request r).settlements ++ [x] }

/-- The handler that a Trigger node provides. -/
def handle (s : Requests) (trigger : DeferredTrigger) (connection msgid : ℕ) (params : JsValue) :
    Requests :=
  let due := s.now + setTimeoutDelay trigger.timeoutMs
  { s.setRequest s.next ⟨trigger, connection, msgid, params, .armed due, []⟩ with
    pending := s.pending.register (.int msgid) s.next
    next := s.next + 1 }

/-- The callback of its timer. -/
def timedOut (s : Requests) (r : ℕ) : Requests :=
  let s := s.setTimer r .fired
  match s.pending.take (.int (s.request r).msgid) with
  | (some _, pending) =>
    { s with pending := pending }.settle r (.rejected (noRespondNode (s.request r).trigger.timeoutMs))
  | (none, _) => s

end Requests

/-! ### `UnoQRespond.node.ts` -/

inductive RespondWith
  | incomingItem
  | json
  | text
  | error
  deriving DecidableEq

structure RespondOptions where
  metadataField : Option String
  stripMetadata : Option Bool

/-- The parameters of a Respond node for an item; evaluating one may fail. -/
structure RespondParameters where
  respondWith : Except String RespondWith
  options : Except String RespondOptions
  errorMessage : Except String String
  responseText : Except String String
  responseJson : Except String JsValue

def RespondOptions.field (o : RespondOptions) : String :=
  match o.metadataField with
  | some name => if name = "" then DEFAULT_METADATA_FIELD else name
  | none => DEFAULT_METADATA_FIELD

def isFinite : JsNumber → Bool
  | .int _ => true
  | .frac _ _ _ => true
  | _ => false

def coerceMsgid (js : Platform) : JsValue → Option JsNumber
  | .num n => if isFinite n then some n else none
  | .str s =>
    if trim s = "" then none
    else if isFinite (js.number s) then some (js.number s) else none
  | _ => none

def missingEnvelope (field : String) : String :=
  "Incoming item is missing \"" ++ field ++ ".msgid\". Connect this node after an Arduino UNO Q " ++
    "Trigger running in \"Wait for Respond Node\" mode."

def noPendingRequest (js : Platform) (msgid : JsNumber) : String :=
  "No pending request for msgid " ++ js.numberText msgid ++ ". The MessagePack-RPC request is no " ++
    "longer open — it may have timed out, already been answered, or the Trigger never fired for " ++
    "this execution. This commonly happens when n8n replays pinned trigger output (manual " ++
    "\"Execute Workflow\" / re-running a single node): the Trigger's live handler is skipped, so no " ++
    "entry is registered in PendingRequests. To test end-to-end, use \"Listen for test event\" on " ++
    "the Trigger (or activate the workflow) and send a fresh Bridge.call() from the MCU."

def resolveValue (js : Platform) (p : RespondParameters) (respondWith : RespondWith) (item : Item)
    (options : RespondOptions) : Except String JsValue :=
  match respondWith with
  | .text => p.responseText.map .str
  | .json =>
    match p.responseJson with
    | .error message => .error message
    | .ok (.str raw) =>
      match js.parseJson raw with
      | .ok value => .ok value
      | .error message => .error ("Response (JSON) is not valid JSON: " ++ message)
    | .ok raw => .ok raw
  | _ =>
    if options.stripMetadata.getD true then
      .ok (.obj (item.filter fun x => decide (x.1 ≠ options.field)))
    else .ok (.obj item)

/-- What the promise of the entry is settled with. -/
def makeResponse (js : Platform) (p : RespondParameters) (respondWith : RespondWith) (item : Item)
    (options : RespondOptions) : Except String Settlement :=
  match respondWith with
  | .error => p.errorMessage.map fun message => .rejected (if message = "" then "error" else message)
  | _ => (resolveValue js p respondWith item options).map .resolved

structure RespondCall where
  respondWith : RespondWith
  options : RespondOptions
  msgid : JsNumber

/-- Up to `take`: which request the item is to answer. -/
def readItem (js : Platform) (p : RespondParameters) (item : Item) : Except String RespondCall :=
  match p.respondWith, p.options with
  | .error message, _ => .error message
  | .ok _, .error message => .error message
  | .ok respondWith, .ok options =>
    match coerceMsgid js (prop "msgid" (prop options.field (.obj item))) with
    | none => .error (missingEnvelope options.field)
    | some msgid => .ok ⟨respondWith, options, msgid⟩

/-- What the node puts out for an item. -/
inductive RespondOutput
  | settled (msgid : JsNumber) (settlement : Settlement)
  | failed (message : String)

namespace Requests

/-- One turn of the loop of `execute`. -/
def respond (js : Platform) (s : Requests) (p : RespondParameters) (item : Item) :
    Except String RespondOutput × Requests :=
  match readItem js p item with
  | .error message => (.error message, s)
  | .ok call =>
    match s.pending.take call.msgid with
    | (none, _) => (.error (noPendingRequest js call.msgid), s)
    | (some r, pending) =>
      let s := { s with pending := pending }.clearTimeout r
      match makeResponse js p call.respondWith item call.options with
      | .error message => (.error message, s)
      | .ok x => (.ok (.settled call.msgid x), s.settle r x)

def execute (js : Platform) (continueOnFail : Bool) : Requests → List (RespondParameters × Item) →
    Except String (List RespondOutput) × Requests
  | s, [] => (.ok [], s)
  | s, (p, item) :: rest =>
    match s.respond js p item with
    | (.ok output, s) =>
      let (outputs, s) := execute js continueOnFail s rest
      (outputs.map (output :: ·), s)
    | (.error message, s) =>
      if continueOnFail then
        let (outputs, s) := execute js continueOnFail s rest
        (outputs.map (.failed message :: ·), s)
      else (.error message, s)

/-! ### The machine -/

/-- In `respond` the origin is the request whose emission the item comes from, if it comes from one. -/
inductive Event
  | request (trigger : DeferredTrigger) (connection msgid : ℕ) (params : JsValue)
  | respond (origin : Option ℕ) (p : RespondParameters) (item : Item)
  | timeout (r : ℕ)
  | tick (ms : ℕ)

/-- The item still has the envelope of the request. -/
def bears (item : Item) (q : Request) : Bool :=
  match prop "msgid" (prop DEFAULT_METADATA_FIELD (.obj item)) with
  | .num n => decide (n = .int q.msgid)
  | _ => false

/-- The router gives no msgid twice on a connection. A timer does not fire early. -/
def enabled (s : Requests) : Event → Bool
  | .request _ connection msgid _ =>
    (List.range s.next).all fun r =>
      decide ((s.request r).connection = connection → (s.request r).msgid ≠ msgid)
  | .respond origin _ item =>
    match origin with
    | some r => decide (r < s.next) && bears item (s.request r)
    | none => true
  | .timeout r =>
    match (s.request r).timer with
    | .armed due => decide (r < s.next) && decide (due ≤ s.now)
    | _ => false
  | .tick _ => true

def apply (js : Platform) (s : Requests) : Event → Requests
  | .request trigger connection msgid params => s.handle trigger connection msgid params
  | .respond _ p item => (s.respond js p item).2
  | .timeout r => s.timedOut r
  | .tick ms => { s with now := s.now + ms }

def machine (js : Platform) : Machine Requests Event :=
  .ofEnabled (· = initial) (fun s e => s.enabled e = true) (apply js)

end Requests

end UnoQ.Nodes
