import UnoQ.Cloud.RestApi
import UnoQ.Lib.ItemLoop
import UnoQ.Nodes.Parameters

/-!
# Arduino Cloud nodes over the REST wrappers

`ArduinoCloud.execute`: for each of its items a run reads the parameters, passes the gates, awaits one
REST operation and makes an output of the answer. Any number of runs go on side by side, under
credentials that they share with each other and with everybody else. The SDK answers as it likes, and
what the gates say is left open here.
-/

namespace UnoQ.Nodes
open Codec Transition Cloud PerItem
open Ssh (trim)

/-! ### Dates -/

/-- The time value of a `Date`; an invalid one has none. -/
abbrev DateValue := Option ℤ

/-- A platform with its own ways to read a date from a value and to write one as a text. -/
structure DatePlatform extends TextPlatform where
  parseDate : JsValue → DateValue
  isoText : ℤ → String

/-- `new Date(ms)` -/
def newDate (ms : ℤ) : DateValue := if |ms| ≤ 8640000000000000 then some ms else none

/-- What the SDK gives for a date. -/
inductive SdkDate
  | date (value : DateValue)
  | text (s : String)

section
variable (js : DatePlatform)

def toIsoString : SdkDate → Except String String
  | .date (some ms) => .ok (js.isoText ms)
  | .date none => .error "Invalid time value"
  | .text s => .ok s

def readDate (name : String) (v : JsValue) : Except String (Option ℤ) :=
  match v with
  | .undefined => .ok none
  | .null => .ok none
  | .str "" => .ok none
  | _ =>
    match js.parseDate v with
    | some ms => .ok (some ms)
    | none =>
      (js.string v).bind fun text => .error ("\"" ++ name ++ "\" is not a valid date: " ++ text)

end

/-! ### `arduinoCloudApi.ts` -/

/-- `withOrg`: an empty text counts as none. -/
def withOrg (credential : TokenRequest) : Option String :=
  credential.organizationId.filter fun organizationId => organizationId ≠ ""

/-- What the SDK is told to request, besides the bearer token. -/
inductive SdkRequest
  | propertiesV2Show (thingId propertyId : String) (xOrganization : Option String)
  | propertiesV2Publish (thingId propertyId : String) (value : JsValue) (xOrganization : Option String)
  | seriesV2HistoricData (fromDate toDate : DateValue) (properties : List String)
    (xOrganization : Option String)

/-- The members that the node puts out. -/
structure PropertySummary where
  name : JsValue
  variable_name : JsValue
  type : JsValue
  permission : JsValue
  last_value : JsValue
  value_updated_at : JsValue

structure ArduinoSeriesResponse where
  from_date : Option SdkDate
  to_date : Option SdkDate
  times : Option (List SdkDate)
  values : Option (List JsValue)

/-- A value that the SDK resolves with, read as a property, which throws if it is `null`, and as a batch,
which has no `responses` then. -/
structure SdkAnswer where
  property : Except String PropertySummary
  responses : Option (List ArduinoSeriesResponse)

structure HistoricDataPoint where
  time : String
  value : JsValue

def historicPoints (js : DatePlatform) (r : ArduinoSeriesResponse) :
    Except String (List HistoricDataPoint) :=
  ((r.times.getD []).zip (r.values.getD [])).mapM fun p =>
    (toIsoString js p.1).map fun time => ⟨time, p.2⟩

/-- The points of each response; the dates of all of them are written as texts. -/
def historicData (js : DatePlatform) (fromDate toDate : DateValue)
    (responses : Option (List ArduinoSeriesResponse)) : Except String (List (List HistoricDataPoint)) :=
  (responses.getD []).mapM fun r =>
    (historicPoints js r).bind fun points =>
      (toIsoString js (r.from_date.getD (.date fromDate))).bind fun _ =>
        (toIsoString js (r.to_date.getD (.date toDate))).map fun _ => points

/-! ### `ArduinoCloud.node.ts` -/

def DEFAULT_HISTORY_LOOKBACK_MS : ℤ := 60 * 60 * 1000

inductive CloudOperation
  | get
  | set
  | getHistory
  deriving DecidableEq

/-- The wrapper that is called. -/
def CloudOperation.wrapper : CloudOperation → Operation
  | .get => .getProperty
  | .set => .publishProperty
  | .getHistory => .historicData

/-- What the parameters of a node come to for an item; evaluating one may fail. -/
structure CloudParameters where
  resource : Except String String
  operation : Except String CloudOperation
  thingId : Except String String
  propertyId : Except String String
  valueType : Except String ValueType
  value : Except String JsValue
  toDate : Except String JsValue
  fromDate : Except String JsValue

/-- The value is only read for a `set`. -/
structure CloudCall where
  operation : CloudOperation
  thingId : String
  propertyId : String
  value : JsValue

namespace CloudParameters

variable (js : DatePlatform)

/-- In the order of the source. -/
def prepare (p : CloudParameters) : Except String CloudCall :=
  p.resource.bind fun resource =>
    if resource ≠ "property" then
      .error ("Unknown resource \"" ++ resource ++ "\". Only \"property\" is supported in this version.")
    else
      p.operation.bind fun operation =>
        p.thingId.bind fun rawThing =>
          p.propertyId.bind fun rawProperty =>
            let thingId := trim rawThing
            let propertyId := trim rawProperty
            if thingId = "" ∨ propertyId = "" then .error "Thing and Property are required"
            else if operation = .set then
              p.valueType.bind fun type =>
                p.value.bind fun raw =>
                  (parseValue js.toTextPlatform type raw).map fun value =>
                    ⟨operation, thingId, propertyId, value⟩
            else .ok ⟨operation, thingId, propertyId, .undefined⟩

/-- The window of a history: `from`, `to`. -/
def dates (p : CloudParameters) (now : ℤ) : Except String (DateValue × DateValue) :=
  (p.toDate.bind (readDate js "to")).bind fun toDate =>
    let stop := toDate.getD now
    (p.fromDate.bind (readDate js "from")).map fun fromDate =>
      match fromDate with
      | some start => (some start, some stop)
      | none => (newDate (stop - DEFAULT_HISTORY_LOOKBACK_MS), some stop)

/-- What a call comes to; a history reads its dates first. -/
def request (p : CloudParameters) (now : ℤ) (credential : TokenRequest) (call : CloudCall) :
    Except String SdkRequest :=
  match call.operation with
  | .get => .ok (.propertiesV2Show call.thingId call.propertyId (withOrg credential))
  | .set => .ok (.propertiesV2Publish call.thingId call.propertyId call.value (withOrg credential))
  | .getHistory =>
    (p.dates js now).map fun window =>
      .seriesV2HistoricData window.1 window.2 [call.propertyId] (withOrg credential)

end CloudParameters

/-- The `json` of an output item. -/
inductive CloudOutput
  | property (thingId propertyId : String) (p : PropertySummary)
  | published (thingId propertyId : String) (value : JsValue)
  | history (thingId propertyId fromText toText : String) (count : ℕ) (points : List HistoricDataPoint)
  | refused (operation : CloudOperation) (thingId propertyId : String) (value : Option JsValue)
    (error : String)
  | error (message : String)

/-- The refusal of a guard shows the value that was to be set. -/
inductive Refusal
  | rateLimit (error : String)
  | guard (error : String)

namespace CloudCall

def refused (call : CloudCall) : Refusal → CloudOutput
  | .rateLimit error => .refused call.operation call.thingId call.propertyId none error
  | .guard error =>
    .refused call.operation call.thingId call.propertyId
      (if call.operation = .set then some call.value else none) error

/-- What the run makes of an answer to its request. -/
def output (js : DatePlatform) (call : CloudCall) (request : SdkRequest) (answer : SdkAnswer) :
    Except String CloudOutput :=
  match request with
  | .propertiesV2Show _ _ _ =>
    answer.property.map fun p =>
      .property call.thingId call.propertyId
        { p with last_value := nullish p.last_value, value_updated_at := nullish p.value_updated_at }
  | .propertiesV2Publish _ _ _ _ => .ok (.published call.thingId call.propertyId call.value)
  | .seriesV2HistoricData fromDate toDate _ _ =>
    (historicData js fromDate toDate answer.responses).bind fun results =>
      (toIsoString js (.date fromDate)).bind fun fromText =>
        (toIsoString js (.date toDate)).map fun toText =>
          let points := results.head?.getD []
          .history call.thingId call.propertyId fromText toText points.length points

end CloudCall

/-! ### Runs -/

/-- A REST operation of a node, and what it asks the SDK for. -/
structure RestJob where
  call : ℕ
  request : SdkRequest

inductive CloudPc
  | preparing
  | calling (call : CloudCall) (job : RestJob)

/-- The `credentials` are those of the runs, `answers` what the promises of the SDK have come to. -/
structure CloudRuns extends ItemLoops CloudParameters CloudPc CloudOutput RestJob where
  api : RestApi
  credentials : ℕ → TokenRequest
  answers : ℕ → Option (Except String SdkAnswer)

namespace CloudRuns

def initial (now : ℤ) : CloudRuns := ⟨.initial, .initial now, fun _ => ⟨"", "", none⟩, fun _ => none⟩

def execute (s : CloudRuns) (credential : TokenRequest) (continueOnFail : Bool)
    (items : List CloudParameters) : CloudRuns :=
  { s with
    toItemLoops := s.toItemLoops.execute continueOnFail items .preparing
    credentials := Function.update s.credentials s.nextRun credential }

def next (s : CloudRuns) (x : ℕ) (output : CloudOutput) : CloudRuns :=
  { s with toItemLoops := s.toItemLoops.next x .preparing output }

/-- The `catch` of the loop. -/
def fail (s : CloudRuns) (x : ℕ) (message : String) : CloudRuns :=
  { s with toItemLoops := s.toItemLoops.fail x .preparing (.error message) message }

/-- The wrapper is called, and awaits a token of the bucket. -/
def callRest (s : CloudRuns) (x : ℕ) (call : CloudCall) (request : SdkRequest) : CloudRuns :=
  let job : RestJob := ⟨s.api.nextCall, request⟩
  { s with
    toItemLoops := s.ask x (.calling call job) job
    api := s.api.call call.operation.wrapper (s.credentials x) }

/-- The gates refuse, or let the item pass; a guard may throw. -/
def prepared (js : DatePlatform) (s : CloudRuns) (x : ℕ) (item : CloudParameters)
    (gates : Except String (Option Refusal)) : CloudRuns :=
  match item.prepare js with
  | .error message => s.fail x message
  | .ok call =>
    match gates with
    | .error message => s.fail x message
    | .ok (some refusal) => s.next x (call.refused refusal)
    | .ok none =>
      match item.request js s.api.now (s.credentials x) call with
      | .error message => s.fail x message
      | .ok request => s.callRest x call request

/-- What the promise of a wrapper has come to. -/
def outcome (s : CloudRuns) (c : ℕ) : Option (Except String SdkAnswer) :=
  match (s.api.calls c).phase with
  | .failed message => some (.error message)
  | .requested => s.answers c
  | _ => none

def settled (js : DatePlatform) (s : CloudRuns) (x : ℕ) (call : CloudCall) (request : SdkRequest)
    (answer : Except String SdkAnswer) : CloudRuns :=
  match answer.bind (call.output js request) with
  | .error message => s.fail x message
  | .ok output => s.next x output

/-- In `api` anything happens to the wrappers, but for the calls of the nodes. -/
inductive Event
  | api (e : RestApi.Event)
  | execute (credential : TokenRequest) (continueOnFail : Bool) (items : List CloudParameters)
  | prepared (x : ℕ) (gates : Except String (Option Refusal))
  | answered (c : ℕ) (answer : Except String SdkAnswer)
  | settled (x : ℕ)

/-- The item of a run that is about to read it. -/
def reading (s : CloudRuns) (x : ℕ) : Option CloudParameters :=
  match (s.runs x).pc with
  | some .preparing => (s.runs x).items[(s.runs x).index]?
  | _ => none

def ended (s : CloudRuns) (x : ℕ) : Option (CloudCall × SdkRequest × Except String SdkAnswer) :=
  match (s.runs x).pc with
  | some (.calling call job) => (s.outcome job.call).map fun answer => (call, job.request, answer)
  | _ => none

def step (js : DatePlatform) (s : CloudRuns) : Event → Option CloudRuns
  | .api e => (s.api.step e).map fun api => { s with api := api }
  | .execute credential continueOnFail items => some (s.execute credential continueOnFail items)
  | .prepared x gates => (s.reading x).map fun item => s.prepared js x item gates
  | .answered c answer =>
    if (s.api.calls c).phase = .requested ∧ (s.answers c).isNone = true then
      some { s with answers := Function.update s.answers c (some answer) }
    else none
  | .settled x => (s.ended x).map fun r => s.settled js x r.1 r.2.1 r.2.2

def machine (js : DatePlatform) : Machine CloudRuns Event where
  init s := ∃ now, s = initial now
  step := step js

/-- What a step does, and on what condition. -/
inductive Effect (js : DatePlatform) (s : CloudRuns) : Event → CloudRuns → Prop
  | api {e : RestApi.Event} {api : RestApi} : s.api.step e = some api →
    Effect js s (.api e) { s with api := api }
  | execute (credential : TokenRequest) (continueOnFail : Bool) (items : List CloudParameters) :
    Effect js s (.execute credential continueOnFail items) (s.execute credential continueOnFail items)
  | prepared {x : ℕ} {item : CloudParameters} (gates : Except String (Option Refusal)) :
    (s.runs x).pc = some .preparing → (s.runs x).items[(s.runs x).index]? = some item →
    Effect js s (.prepared x gates) (s.prepared js x item gates)
  | answered {c : ℕ} (answer : Except String SdkAnswer) : (s.api.calls c).phase = .requested →
    s.answers c = none →
    Effect js s (.answered c answer) { s with answers := Function.update s.answers c (some answer) }
  | settled {x : ℕ} {call : CloudCall} {job : RestJob} {answer : Except String SdkAnswer} :
    (s.runs x).pc = some (.calling call job) → s.outcome job.call = some answer →
    Effect js s (.settled x) (s.settled js x call job.request answer)

variable {js : DatePlatform} {s t : CloudRuns} {e : Event}

theorem reading_eq_some {x : ℕ} {item : CloudParameters} (h : s.reading x = some item) :
    (s.runs x).pc = some .preparing ∧ (s.runs x).items[(s.runs x).index]? = some item := by
  unfold reading at h
  split at h
  next hpc => exact ⟨hpc, h⟩
  next => contradiction

theorem effect_of_step (h : s.step js e = some t) : Effect js s e t := by
  cases e with
  | api e =>
    obtain ⟨api, hapi, rfl⟩ := Option.map_eq_some_iff.mp h
    exact .api hapi
  | execute credential continueOnFail items =>
    cases h
    exact .execute credential continueOnFail items
  | prepared x gates =>
    obtain ⟨item, hitem, rfl⟩ := Option.map_eq_some_iff.mp h
    obtain ⟨hpc, hat⟩ := reading_eq_some hitem
    exact .prepared gates hpc hat
  | answered c answer =>
    simp only [step] at h
    split at h
    next hopen =>
      cases h
      exact .answered answer hopen.1 (Option.isNone_iff_eq_none.mp hopen.2)
    next => contradiction
  | settled x =>
    obtain ⟨⟨call, request, answer⟩, hr, rfl⟩ := Option.map_eq_some_iff.mp h
    unfold ended at hr
    split at hr
    next call' job hpc =>
      obtain ⟨answer', houtcome, heq⟩ := Option.map_eq_some_iff.mp hr
      cases heq
      exact .settled hpc houtcome
    next => contradiction

end CloudRuns

end UnoQ.Nodes
