import UnoQ.Client.Views
import UnoQ.Lib.ItemLoop
import UnoQ.Nodes.Parameters

/-!
# Call and Tool nodes over their bridges

`UnoQCall.execute` and `UnoQTool.execute`: for each of its items a run reads the parameters, awaits a
bridge, calls the method there and awaits the result. Any number of runs go on side by side, on bridges
that they share with each other and with everybody else. Which bridge the manager has for an item is left
open here, and so is what the gates of a Tool node say.
-/

namespace UnoQ.Nodes
open Codec Transition Client PerItem
open Ssh (trim)

/-- What `callWithOptions` is called with for an item. -/
structure PreparedCall where
  method : String
  params : List JsValue
  timeoutMs : ℤ
  idempotent : Bool

namespace CallParameters

def DEFAULT_TIMEOUT_MS : ℤ := 5000

/-- In the order of the source; `resolved` is what `resolveTransport` comes to. -/
def prepare (js : TextPlatform) (p : CallParameters) (resolved : Except String Unit) :
    Except String PreparedCall :=
  p.method.bind fun raw =>
    let method := trim raw
    if method = "" then .error "Method name is required"
    else
      p.parametersMode.bind fun mode =>
        p.timeout.bind fun timeout =>
          p.idempotent.bind fun idempotent =>
            resolved.bind fun _ =>
              (buildParams js p mode).map fun params =>
                ⟨method, params, timeout.getD DEFAULT_TIMEOUT_MS, idempotent⟩

end CallParameters

/-- The `json` of an output item. -/
inductive CallOutput
  | result (method : String) (params : List JsValue) (result : JsValue)
  | refused (method : String) (params : List JsValue) (error : String)
  | error (message : String)

/-- The `message` of what a call rejects with; the codec has its own texts. -/
def errorMessage (encodeError : List JsValue → String) (params : List JsValue) : BridgeError → String
  | .remote message => message
  | .timeout method timeoutMs =>
    "Call to \"" ++ method ++ "\" timed out after " ++ toString timeoutMs ++ "ms"
  | .connection message => message
  | .encoding => encodeError params

/-- `opening`: the run awaits `getBridge`, `calling`: it awaits an invocation on a bridge. -/
inductive CallPc
  | preparing
  | opening (call : PreparedCall)
  | calling (call : PreparedCall) (bridge invocation : ℕ)

/-- An invocation of `callWithOptions`. -/
structure BridgeCall where
  bridge : ℕ
  invocation : ℕ

/-- The runs of `execute`; those of a Tool node are gated. -/
structure CallRuns extends ItemLoops CallParameters CallPc CallOutput BridgeCall where
  bridges : ℕ → Bridge
  gated : ℕ → Bool

namespace CallRuns

def initial : CallRuns := ⟨.initial, fun _ => .initial, fun _ => false⟩

def execute (s : CallRuns) (gated continueOnFail : Bool) (items : List CallParameters) : CallRuns :=
  { s with
    toItemLoops := s.toItemLoops.execute continueOnFail items .preparing
    gated := Function.update s.gated s.nextRun gated }

def next (s : CallRuns) (x : ℕ) (output : CallOutput) : CallRuns :=
  { s with toItemLoops := s.toItemLoops.next x .preparing output }

/-- The `catch` of the loop. -/
def fail (s : CallRuns) (x : ℕ) (message : String) : CallRuns :=
  { s with toItemLoops := s.toItemLoops.fail x .preparing (.error message) message }

/-- `gates` is the text of a refusal, if there is one; a guard may throw. -/
def prepared (js : TextPlatform) (s : CallRuns) (x : ℕ) (item : CallParameters)
    (resolved : Except String Unit) (gates : Except String (Option String)) : CallRuns :=
  match item.prepare js resolved with
  | .error message => s.fail x message
  | .ok call =>
    match gates with
    | .error message => s.fail x message
    | .ok (some rejection) => s.next x (.refused call.method call.params rejection)
    | .ok none => { s with toItemLoops := s.goto x (.opening call) }

/-- `getBridge` resolves, and the method is called at once. -/
def opened (host : ℕ → Host) (s : CallRuns) (x b : ℕ) (call : PreparedCall) : CallRuns :=
  let k := (s.bridges b).calls.nextCall
  { s with
    toItemLoops := s.ask x (.calling call b k) ⟨b, k⟩
    bridges := Function.update s.bridges b
      ((s.bridges b).callWithOptions (host b) call.method call.params
        ⟨some call.timeoutMs, some call.idempotent⟩) }

def settled (encodeError : List JsValue → String) (s : CallRuns) (x : ℕ) (call : PreparedCall) :
    Client.Settlement → CallRuns
  | .result value => s.next x (.result call.method call.params (nullish value))
  | .failure err => s.fail x (errorMessage encodeError call.params err)

/-- In `bridge` anything happens to a bridge, but for the calls of the nodes. -/
inductive Event
  | bridge (b : ℕ) (e : Bridge.Event)
  | execute (gated continueOnFail : Bool) (items : List CallParameters)
  | prepared (x : ℕ) (resolved : Except String Unit) (gates : Except String (Option String))
  | unopened (x : ℕ) (message : String)
  | opened (x b : ℕ)
  | settled (x : ℕ)

/-- The item of a run that is about to read it. -/
def reading (s : CallRuns) (x : ℕ) : Option CallParameters :=
  match (s.runs x).pc with
  | some .preparing => (s.runs x).items[(s.runs x).index]?
  | _ => none

def opening (s : CallRuns) (x : ℕ) : Option PreparedCall :=
  match (s.runs x).pc with
  | some (.opening call) => some call
  | _ => none

/-- What a run awaits has ended so. -/
def outcome (s : CallRuns) (x : ℕ) : Option (PreparedCall × Client.Settlement) :=
  match (s.runs x).pc with
  | some (.calling call b k) => ((s.bridges b).outcome k).map fun r => (call, r)
  | _ => none

/-- Call nodes have no gates. -/
def passesOpen (gated : Bool) : Except String (Option String) → Bool
  | .ok none => true
  | _ => gated

def step (host : ℕ → Host) (js : TextPlatform) (encodeError : List JsValue → String) (s : CallRuns) :
    Event → Option CallRuns
  | .bridge b e =>
    if (s.bridges b).enabled e = true then
      some { s with bridges := Function.update s.bridges b ((s.bridges b).apply (host b) e) }
    else none
  | .execute gated continueOnFail items => some (s.execute gated continueOnFail items)
  | .prepared x resolved gates =>
    if passesOpen (s.gated x) gates = true then
      (s.reading x).map fun item => s.prepared js x item resolved gates
    else none
  | .unopened x message => (s.opening x).map fun _ => s.fail x message
  | .opened x b => (s.opening x).map fun call => s.opened host x b call
  | .settled x => (s.outcome x).map fun r => s.settled encodeError x r.1 r.2

def machine (host : ℕ → Host) (js : TextPlatform) (encodeError : List JsValue → String) :
    Machine CallRuns Event where
  init := (· = initial)
  step := step host js encodeError

/-- What a step does, and on what condition. -/
inductive Effect (host : ℕ → Host) (js : TextPlatform) (encodeError : List JsValue → String)
    (s : CallRuns) : Event → CallRuns → Prop
  | bridge {b : ℕ} {e : Bridge.Event} : (s.bridges b).enabled e = true →
    Effect host js encodeError s (.bridge b e)
      { s with bridges := Function.update s.bridges b ((s.bridges b).apply (host b) e) }
  | execute (gated continueOnFail : Bool) (items : List CallParameters) :
    Effect host js encodeError s (.execute gated continueOnFail items)
      (s.execute gated continueOnFail items)
  | prepared {x : ℕ} {item : CallParameters} (resolved : Except String Unit)
    (gates : Except String (Option String)) : (s.runs x).pc = some .preparing →
    (s.runs x).items[(s.runs x).index]? = some item →
    Effect host js encodeError s (.prepared x resolved gates) (s.prepared js x item resolved gates)
  | unopened {x : ℕ} {call : PreparedCall} (message : String) : (s.runs x).pc = some (.opening call) →
    Effect host js encodeError s (.unopened x message) (s.fail x message)
  | opened {x : ℕ} {call : PreparedCall} (b : ℕ) : (s.runs x).pc = some (.opening call) →
    Effect host js encodeError s (.opened x b) (s.opened host x b call)
  | settled {x b k : ℕ} {call : PreparedCall} {r : Client.Settlement} :
    (s.runs x).pc = some (.calling call b k) → ((s.bridges b).calls.calls k).pc = .done r →
    Effect host js encodeError s (.settled x) (s.settled encodeError x call r)

variable {host : ℕ → Host} {js : TextPlatform} {encodeError : List JsValue → String}
  {s t : CallRuns} {e : Event}

theorem reading_eq_some {x : ℕ} {item : CallParameters} (h : s.reading x = some item) :
    (s.runs x).pc = some .preparing ∧ (s.runs x).items[(s.runs x).index]? = some item := by
  unfold reading at h
  split at h
  next hpc => exact ⟨hpc, h⟩
  next => contradiction

theorem opening_eq_some {x : ℕ} {call : PreparedCall} (h : s.opening x = some call) :
    (s.runs x).pc = some (.opening call) := by
  unfold opening at h
  split at h
  next hpc =>
    cases h
    exact hpc
  next => contradiction

theorem outcome_eq_some {x : ℕ} {call : PreparedCall} {r : Client.Settlement}
    (h : s.outcome x = some (call, r)) : ∃ b k, (s.runs x).pc = some (.calling call b k) ∧
      ((s.bridges b).calls.calls k).pc = .done r := by
  unfold outcome at h
  split at h
  next call' b k hpc =>
    obtain ⟨r', houtcome, heq⟩ := Option.map_eq_some_iff.mp h
    cases heq
    exact ⟨b, k, hpc, Bridge.outcome_eq_some.mp houtcome⟩
  next => contradiction

theorem effect_of_step (h : s.step host js encodeError e = some t) :
    Effect host js encodeError s e t := by
  cases e with
  | bridge b e =>
    simp only [step] at h
    split at h
    next he =>
      cases h
      exact .bridge he
    next => contradiction
  | execute gated continueOnFail items =>
    cases h
    exact .execute gated continueOnFail items
  | prepared x resolved gates =>
    simp only [step] at h
    split at h
    next =>
      obtain ⟨item, hitem, rfl⟩ := Option.map_eq_some_iff.mp h
      obtain ⟨hpc, hat⟩ := reading_eq_some hitem
      exact .prepared resolved gates hpc hat
    next => contradiction
  | unopened x message =>
    obtain ⟨call, hcall, rfl⟩ := Option.map_eq_some_iff.mp h
    exact .unopened message (opening_eq_some hcall)
  | opened x b =>
    obtain ⟨call, hcall, rfl⟩ := Option.map_eq_some_iff.mp h
    exact .opened b (opening_eq_some hcall)
  | settled x =>
    obtain ⟨⟨call, r⟩, hr, rfl⟩ := Option.map_eq_some_iff.mp h
    obtain ⟨b, k, hpc, hdone⟩ := outcome_eq_some hr
    exact .settled hpc hdone

end CallRuns

end UnoQ.Nodes
