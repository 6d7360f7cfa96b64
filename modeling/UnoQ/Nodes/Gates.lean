import UnoQ.Codec.JsValue
import UnoQ.Lib.Transition
import UnoQ.Nodes.RateLimiter

/-!
# The gates of a tool call

The loops over the items in `UnoQTool.execute` and `ArduinoCloud.execute`. For each item a run
reads its parameters, asks the rate limiter, asks the guard, records the call and makes it. From
the check to the record a run does not wait for anything, so no other run gets in between, but
the clock goes on. The two nodes have the same loop and differ in the counter key, in the texts
for a guard that misbehaves, and in that the one awaits its transport before every item; the other
has its credentials when its run begins here. What an item is apart from its counter key, and what
its call returns, is left out.
-/

namespace UnoQ.Nodes
open Codec Transition

/-- The Rate Limit field of an item. A cap is a whole number, which is what calls are counted in. -/
structure RateLimit where
  maxCalls : Option ℤ
  window : Option RateLimitWindow

namespace RateLimit

def rateLimitCap (r : RateLimit) : Option ℤ := r.maxCalls.filter fun n => 0 < n

def rateLimitWindow (r : RateLimit) : RateLimitWindow := r.window.getD .minute

end RateLimit

/-- What a guard sees of the history; `used` is asked by the guard itself, at a time of its own. -/
structure GuardBudget where
  used : RateLimitWindow → ℤ → ℕ
  remaining : Option ℤ
  resetsInMs : Option ℤ

/-- The clock is read once for `remaining` and once more for `resetsInMs`. -/
def buildBudget (s : RateLimiter) (key : String) (cap : Option ℤ) (capWindow : RateLimitWindow)
    (counted now : ℤ) : GuardBudget where
  used := fun window time => s.countInWindow key window time
  remaining := cap.map fun cap => max 0 (cap - s.countInWindow key capWindow counted)
  resetsInMs := cap.bind fun _ => s.resetsInMs key capWindow now

/-- What the body of a guard does; `type` is what `typeof` says of the value. -/
inductive GuardResult
  | returned (value : JsValue) (type : String)
  | threw (message : String)

/-- What the two nodes differ in. -/
structure Node (Params : Type) where
  counterKey : String → Params → String
  awaitsTransport : Bool
  guardRejected : String
  guardThrew : String → String
  guardReturned : String → String

variable {Params : Type}

/-- `runMethodGuard`: the text of a rejection, or none; a guard that misbehaves raises an error. -/
def Node.runGuard (node : Node Params) : GuardResult → Except String (Option String)
  | .threw message => .error (node.guardThrew message)
  | .returned value type =>
    match value with
    | .undefined => .ok none
    | .null => .ok none
    | .bool true => .ok none
    | .bool false => .ok (some node.guardRejected)
    | .str message => .ok (some message)
    | _ => .error (node.guardReturned type)

/-! ### The two nodes -/

structure ToolParams where
  method : String
  credentialId : Option String

def guardUnexpected (type : String) : String :=
  " returned an unexpected value (" ++ type ++ "); expected true/undefined, false, or a string"

def unoQTool : Node ToolParams where
  counterKey id p :=
    match p.credentialId with
    | some credentialId =>
      if credentialId = "" then id ++ ":" ++ p.method
      else id ++ ":" ++ p.method ++ ":" ++ credentialId
    | none => id ++ ":" ++ p.method
  awaitsTransport := true
  guardRejected := "Method guard rejected the call"
  guardThrew message := "Method guard threw: " ++ message
  guardReturned type := "Method guard" ++ guardUnexpected type

structure PropertyParams where
  thingId : String
  propertyId : String
  operation : String

def arduinoCloud : Node PropertyParams where
  counterKey id p := id ++ ":" ++ p.thingId ++ ":" ++ p.propertyId ++ ":" ++ p.operation
  awaitsTransport := false
  guardRejected := "Guard rejected the call"
  guardThrew message := "Property guard threw: " ++ message
  guardReturned type := "Property guard threw: Guard" ++ guardUnexpected type

/-! ### Runs -/

structure GatedItem (Params : Type) where
  params : Params
  rateLimit : RateLimit
  guarded : Bool

inductive Output
  | result
  | refused (error : String)
  | error (message : String)
  deriving DecidableEq

/-- Where a run stands with its first item. `preparing`: before the gates, `checking`: at
`checkRateLimit`, `guarding`: at the guard, `recording`: at `recordCall`, `calling`: it awaits the
call. -/
inductive GatePc
  | preparing
  | checking
  | guarding
  | recording
  | calling
  | ended
  deriving DecidableEq

/-- The run is between the two gates' first step and `recordCall`. -/
def GatePc.gated : GatePc → Bool
  | .checking | .guarding | .recording => true
  | _ => false

/-- An `execute`. The field `found` is the history as its item found it on reaching the gates. -/
structure Execution (Params : Type) where
  nodeId : String
  continueOnFail : Bool
  items : List (GatedItem Params)
  returnData : List Output
  pc : GatePc
  found : RateLimiter

def Execution.absent : Execution Params := ⟨"", false, [], [], .ended, .initial⟩

/-- The `turn` is of the run whose code is on the stack, if it is at the gates. The calls that
passed both gates are in `passed`, with the time of their `recordCall`. -/
structure Gates (Params : Type) where
  now : ℤ
  limiter : RateLimiter
  executions : ℕ → Execution Params
  nextExecution : ℕ
  turn : Option ℕ
  passed : List (String × ℤ)

namespace Gates

def initial (now : ℤ) : Gates Params := ⟨now, .initial, fun _ => .absent, 0, none, []⟩

def mayRun (s : Gates Params) (x : ℕ) : Prop := s.turn = none ∨ s.turn = some x

instance (s : Gates Params) (x : ℕ) : Decidable (s.mayRun x) :=
  inferInstanceAs (Decidable (_ ∨ _))

def elapse (s : Gates Params) (ms : ℕ) : Gates Params := { s with now := s.now + ms }

@[simp]
theorem elapse_zero (s : Gates Params) : s.elapse 0 = s := by simp [elapse]

def setExecution (s : Gates Params) (x : ℕ) (r : Execution Params) (turn : Option ℕ) :
    Gates Params :=
  { s with executions := Function.update s.executions x r, turn := turn }

/-- The run ends an item and goes on to the next one. -/
def next (node : Node Params) (s : Gates Params) (x : ℕ) (output : Output) : Gates Params :=
  let r := s.executions x
  let items := r.items.tail
  s.setExecution x
    { r with
      items := items
      returnData := r.returnData ++ [output]
      pc := if items.isEmpty then .ended else .preparing }
    (if items.isEmpty || node.awaitsTransport then none else some x)

/-- The `catch` of the loop. -/
def fail (node : Node Params) (s : Gates Params) (x : ℕ) (message : String) : Gates Params :=
  if (s.executions x).continueOnFail = true then s.next node x (.error message)
  else s.setExecution x { s.executions x with pc := .ended } none

def rateLimitExceeded (cap : ℤ) (window : RateLimitWindow) (retryAfterMs : Option ℤ) : String :=
  let retrySeconds :=
    match retryAfterMs with
    | some ms => toString (max 1 (-(-ms / 1000)))
    | none => "NaN"
  "Refused: rate limit of " ++ toString cap ++ " per " ++ window.text ++ " exceeded. Retry in ~" ++
    retrySeconds ++ "s."

def goTo (s : Gates Params) (x : ℕ) (pc : GatePc) : Gates Params :=
  s.setExecution x { s.executions x with pc := pc } (some x)

def prepared (s : Gates Params) (x : ℕ) : Gates Params :=
  s.setExecution x { s.executions x with pc := .checking, found := s.limiter } (some x)

def check (node : Node Params) (s : Gates Params) (x : ℕ) (item : GatedItem Params) : Gates Params :=
  match item.rateLimit.rateLimitCap with
  | none => s.goTo x .guarding
  | some cap =>
    let window := item.rateLimit.rateLimitWindow
    match s.limiter.checkRateLimit (node.counterKey (s.executions x).nodeId item.params) cap window
      s.now with
    | .allowed => s.goTo x .guarding
    | .refused retryAfterMs => s.next node x (.refused (rateLimitExceeded cap window retryAfterMs))

def budget (node : Node Params) (s : Gates Params) (x : ℕ) (item : GatedItem Params) (counted : ℤ) :
    GuardBudget :=
  buildBudget s.limiter (node.counterKey (s.executions x).nodeId item.params)
    item.rateLimit.rateLimitCap item.rateLimit.rateLimitWindow counted s.now

def guard (node : Node Params) (s : Gates Params) (x : ℕ) (item : GatedItem Params) (counted : ℤ)
    (body : GuardBudget → GuardResult) : Gates Params :=
  if item.guarded = true then
    let budget := s.budget node x item counted
    match node.runGuard (body budget) with
    | .ok none => s.goTo x .recording
    | .ok (some rejection) => s.next node x (.refused rejection)
    | .error message => s.fail node x message
  else s.goTo x .recording

def record (node : Node Params) (s : Gates Params) (x : ℕ) (item : GatedItem Params) : Gates Params :=
  let key := node.counterKey (s.executions x).nodeId item.params
  { s.setExecution x { s.executions x with pc := .calling } none with
    limiter := s.limiter.recordCall key s.now
    passed := s.passed ++ [(key, s.now)] }

def execute (s : Gates Params) (nodeId : String) (continueOnFail : Bool)
    (items : List (GatedItem Params)) : Gates Params :=
  { s with
    executions := Function.update s.executions s.nextExecution
      ⟨nodeId, continueOnFail, items, [], if items.isEmpty then .ended else .preparing, .initial⟩
    nextExecution := s.nextExecution + 1 }

/-- `unprepared`: reading the parameters or the transport of the item fails, `guard`: the clock goes
on between the two readings of `buildBudget`, `settled`: the call of the item ends, with a message if
it fails. -/
inductive Event (Params : Type)
  | tick (ms : ℕ)
  | execute (nodeId : String) (continueOnFail : Bool) (items : List (GatedItem Params))
  | prepared (x : ℕ)
  | unprepared (x : ℕ) (message : String)
  | check (x : ℕ)
  | guard (x ms : ℕ) (body : GuardBudget → GuardResult)
  | record (x : ℕ)
  | settled (x : ℕ) (error : Option String)

/-- The run is at this point with an item, and its code may run. -/
def itemAt (s : Gates Params) (x : ℕ) (pc : GatePc) : Option (GatedItem Params) :=
  if (s.executions x).pc = pc ∧ s.mayRun x then (s.executions x).items.head? else none

def step (node : Node Params) (s : Gates Params) : Event Params → Option (Gates Params)
  | .tick ms => some (s.elapse ms)
  | .execute nodeId continueOnFail items =>
    if s.turn = none then some (s.execute nodeId continueOnFail items) else none
  | .prepared x => (s.itemAt x .preparing).map fun _ => s.prepared x
  | .unprepared x message => (s.itemAt x .preparing).map fun _ => s.fail node x message
  | .check x => (s.itemAt x .checking).map fun item => s.check node x item
  | .guard x ms body =>
    (s.itemAt x .guarding).map fun item => (s.elapse ms).guard node x item s.now body
  | .record x => (s.itemAt x .recording).map fun item => s.record node x item
  | .settled x error =>
    (s.itemAt x .calling).map fun _ =>
      match error with
      | some message => s.fail node x message
      | none => s.next node x .result

def machine (node : Node Params) : Machine (Gates Params) (Event Params) where
  init s := ∃ now, s = initial now
  step := step node

/-! What becomes of the runs when one of them goes on. -/

section Executions

variable {node : Node Params} {s : Gates Params} {x y : ℕ} {r : Execution Params}
  {turn : Option ℕ} {item : GatedItem Params}

@[simp]
theorem setExecution_self : (s.setExecution x r turn).executions x = r :=
  Function.update_self ..

theorem setExecution_other (hy : y ≠ x) :
    (s.setExecution x r turn).executions y = s.executions y := Function.update_of_ne hy _ _

@[simp]
theorem record_self : (s.record node x item).executions x =
    { s.executions x with pc := .calling } := Function.update_self ..

theorem record_other (hy : y ≠ x) : (s.record node x item).executions y = s.executions y :=
  Function.update_of_ne hy _ _

end Executions

end Gates

end UnoQ.Nodes
