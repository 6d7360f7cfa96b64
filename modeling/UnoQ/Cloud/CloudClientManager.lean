import Mathlib.Data.Int.Notation
import Mathlib.Logic.Function.Basic
import UnoQ.Codec.JsValue
import UnoQ.Lib.InsertMap
import UnoQ.Lib.Transition

/-!
# The cloud client manager

`cloudClientManager.ts` as a machine. Entries, clients and handler sets are objects that suspended
calls and callbacks keep references to, so they live in heaps and maps hold references. A call of
`subscribe` runs without interruption up to its next `await`; every continuation is an event of its
own. The SDK keeps the callback of an `onPropertyValue` that has succeeded and calls it with every
value of its property; of one that has failed it keeps nothing.
-/

namespace UnoQ.Cloud
open Codec Transition

structure CloudCredential where
  clientId : String
  clientSecret : String
  organizationId : Option String

structure ClientEntry where
  client : Option ℕ
  pendingConnect : Option ℕ
  handlers : InsertMap String ℕ
  sdkSubscribed : List String
  refCount : ℤ

def ClientEntry.new : ClientEntry := ⟨none, none, InsertMap.empty, [], 0⟩

def subKey (thingId variableName : String) : String := thingId ++ "\x00" ++ variableName

/-- The function given to `onPropertyValue`, by the variables it closes over. -/
structure Callback where
  entry : ℕ
  key : String
  deriving DecidableEq

structure Registration where
  thingId : String
  variableName : String
  callback : Callback
  deriving DecidableEq

inductive ClientState
  | connecting
  | connected
  | failed
  | disconnected
  deriving DecidableEq

/-- A client and the promise of its connect, made for `entry`. -/
structure CloudClient where
  entry : ℕ
  clientId : String
  clientSecret : String
  state : ClientState
  registrations : List Registration

def CloudClient.absent : CloudClient := ⟨0, "", "", .failed, []⟩

/-- Where a call of `subscribe` stands. `opening`: it made the client and is in the `try` of
`ensureConnected`, `awaiting`: it awaits what `ensureConnected` gave it, `subscribing`: it awaits
`onPropertyValue` and has its handler in `set`, `released`: its tear-down has been called. -/
inductive Phase
  | opening (client : ℕ)
  | awaiting (client : ℕ)
  | subscribing (client set : ℕ)
  | resolved
  | rejected
  | released
  deriving DecidableEq

structure Subscription where
  credentialKey : String
  thingId : String
  variableName : String
  handler : ℕ
  entry : ℕ
  phase : Phase

def Subscription.absent : Subscription := ⟨"", "", "", 0, 0, .rejected⟩

def Subscription.key (sub : Subscription) : String := subKey sub.thingId sub.variableName

def Subscription.callback (sub : Subscription) : Callback := ⟨sub.entry, sub.key⟩

def Subscription.registration (sub : Subscription) : Registration :=
  ⟨sub.thingId, sub.variableName, sub.callback⟩

/-- A callback that walks over the handlers of `set` with a value; `called` has been called so far. -/
structure Delivery where
  callback : Callback
  set : ℕ
  value : JsValue
  called : List ℕ

structure CloudClientManager where
  entries : InsertMap String ℕ
  heap : ℕ → ClientEntry
  nextEntry : ℕ
  sets : ℕ → List ℕ
  nextSet : ℕ
  clients : ℕ → CloudClient
  nextClient : ℕ
  subs : ℕ → Subscription
  nextSub : ℕ
  delivery : Option Delivery
  console : List String

namespace CloudClientManager

def initial : CloudClientManager where
  entries := InsertMap.empty
  heap _ := .new
  nextEntry := 0
  sets _ := []
  nextSet := 0
  clients _ := .absent
  nextClient := 0
  subs _ := .absent
  nextSub := 0
  delivery := none
  console := []

def setEntry (s : CloudClientManager) (e : ℕ) (entry : ClientEntry) : CloudClientManager :=
  { s with heap := Function.update s.heap e entry }

def setHandlers (s : CloudClientManager) (set : ℕ) (handlers : List ℕ) : CloudClientManager :=
  { s with sets := Function.update s.sets set handlers }

def setClient (s : CloudClientManager) (c : ℕ) (client : CloudClient) : CloudClientManager :=
  { s with clients := Function.update s.clients c client }

def setState (s : CloudClientManager) (c : ℕ) (state : ClientState) : CloudClientManager :=
  s.setClient c { s.clients c with state := state }

def setPhase (s : CloudClientManager) (i : ℕ) (phase : Phase) : CloudClientManager :=
  { s with subs := Function.update s.subs i { s.subs i with phase := phase } }

def addRef (s : CloudClientManager) (e : ℕ) (n : ℤ) : CloudClientManager :=
  s.setEntry e { s.heap e with refCount := (s.heap e).refCount + n }

theorem setEntry_heap (s : CloudClientManager) (e x : ℕ) (entry : ClientEntry) :
    (s.setEntry e entry).heap x = if x = e then entry else s.heap x :=
  Function.update_apply s.heap e entry x

/-- An entry is replaced by what a function makes of it. -/
theorem setEntry_modify (s : CloudClientManager) (e x : ℕ) (f : ClientEntry → ClientEntry) :
    (s.setEntry e (f (s.heap e))).heap x = if x = e then f (s.heap x) else s.heap x := by
  rw [setEntry_heap]
  split
  next hx => rw [hx]
  · rfl

theorem setHandlers_sets (s : CloudClientManager) (set x : ℕ) (handlers : List ℕ) :
    (s.setHandlers set handlers).sets x = if x = set then handlers else s.sets x :=
  Function.update_apply s.sets set handlers x

theorem setClient_clients (s : CloudClientManager) (c x : ℕ) (client : CloudClient) :
    (s.setClient c client).clients x = if x = c then client else s.clients x :=
  Function.update_apply s.clients c client x

theorem setPhase_subs (s : CloudClientManager) (i x : ℕ) (phase : Phase) :
    (s.setPhase i phase).subs x = if x = i then { s.subs i with phase := phase } else s.subs x :=
  Function.update_apply s.subs i _ x

/-! ### The methods -/

def newEntry (s : CloudClientManager) (credentialKey : String) : CloudClientManager :=
  { s.setEntry s.nextEntry .new with
    entries := s.entries.set credentialKey s.nextEntry
    nextEntry := s.nextEntry + 1 }

def getEntry (s : CloudClientManager) (credentialKey : String) : CloudClientManager × ℕ :=
  match s.entries.get credentialKey with
  | some e => (s, e)
  | none => (s.newEntry credentialKey, s.nextEntry)

/-- The client of an entry that has none begins to connect. -/
def newConnect (s : CloudClientManager) (e : ℕ) (credential : CloudCredential) :
    CloudClientManager :=
  let client : CloudClient := ⟨e, credential.clientId, credential.clientSecret, .connecting, []⟩
  { (s.setClient s.nextClient client).setEntry e
      { s.heap e with pendingConnect := some s.nextClient } with
    nextClient := s.nextClient + 1 }

/-- Up to its `await`, if it has one; the phase is what the caller waits for. -/
def ensureConnected (s : CloudClientManager) (e : ℕ) (credential : CloudCredential) :
    CloudClientManager × Phase :=
  match (s.heap e).client with
  | some c => (s, .awaiting c)
  | none =>
    match (s.heap e).pendingConnect with
    | some c => (s, .awaiting c)
    | none => (s.newConnect e credential, .opening s.nextClient)

def disconnect (s : CloudClientManager) (c : ℕ) : CloudClientManager := s.setState c .disconnected

def teardown (s : CloudClientManager) (credentialKey : String) (e : ℕ) : CloudClientManager :=
  let client := (s.heap e).client
  let s := s.setEntry e
    { s.heap e with client := none, handlers := InsertMap.empty, sdkSubscribed := [] }
  let s := { s with entries := s.entries.delete credentialKey }
  match client with
  | some c => s.disconnect c
  | none => s

def addSub (s : CloudClientManager) (sub : Subscription) : CloudClientManager :=
  { s with subs := Function.update s.subs s.nextSub sub, nextSub := s.nextSub + 1 }

theorem addSub_subs (s : CloudClientManager) (sub : Subscription) (i : ℕ) :
    (s.addSub sub).subs i = if i = s.nextSub then sub else s.subs i :=
  Function.update_apply s.subs s.nextSub sub i

/-- `subscribe` up to its first `await`. -/
def subscribe (s : CloudClientManager) (credentialKey : String) (credential : CloudCredential)
    (thingId variableName : String) (handler : ℕ) : CloudClientManager :=
  let (s, e) := s.getEntry credentialKey
  let (s, phase) := (s.addRef e 1).ensureConnected e credential
  s.addSub ⟨credentialKey, thingId, variableName, handler, e, phase⟩

/-- The rest of the connect in `ensureConnected`, once `connect` has succeeded. -/
def connected (s : CloudClientManager) (c : ℕ) : CloudClientManager :=
  let e := (s.clients c).entry
  (s.setState c .connected).setEntry e { s.heap e with client := some c }

/-- The `finally` of `ensureConnected`. -/
def connectSettled (s : CloudClientManager) (i c : ℕ) : CloudClientManager :=
  let e := (s.subs i).entry
  (s.setEntry e { s.heap e with pendingConnect := none }).setPhase i (.awaiting c)

def newSet (s : CloudClientManager) (e : ℕ) (key : String) : CloudClientManager :=
  { (s.setHandlers s.nextSet []).setEntry e
      { s.heap e with handlers := (s.heap e).handlers.set key s.nextSet } with
    nextSet := s.nextSet + 1 }

/-- The handler set of the key, made if there is none. -/
def getSet (s : CloudClientManager) (e : ℕ) (key : String) : CloudClientManager × ℕ :=
  match (s.heap e).handlers.get key with
  | some set => (s, set)
  | none => (s.newSet e key, s.nextSet)

def addHandler (s : CloudClientManager) (set handler : ℕ) : CloudClientManager :=
  s.setHandlers set (if handler ∈ s.sets set then s.sets set else s.sets set ++ [handler])

def mark (s : CloudClientManager) (e : ℕ) (key : String) : CloudClientManager :=
  s.setEntry e { s.heap e with sdkSubscribed := (s.heap e).sdkSubscribed ++ [key] }

def unmark (s : CloudClientManager) (e : ℕ) (key : String) : CloudClientManager :=
  s.setEntry e { s.heap e with
    sdkSubscribed := (s.heap e).sdkSubscribed.filter fun k => decide (k ≠ key) }

/-- `subscribe` between its two `await`s, with the client connected. -/
def join (s : CloudClientManager) (i c : ℕ) : CloudClientManager :=
  let sub := s.subs i
  let (s, set) := s.getSet sub.entry sub.key
  let s := s.addHandler set sub.handler
  if sub.key ∈ (s.heap sub.entry).sdkSubscribed then s.setPhase i .resolved
  else (s.mark sub.entry sub.key).setPhase i (.subscribing c set)

/-- The first `catch` of `subscribe`. -/
def connectThrew (s : CloudClientManager) (i : ℕ) : CloudClientManager :=
  (s.addRef (s.subs i).entry (-1)).setPhase i .rejected

def deleteHandler (s : CloudClientManager) (e : ℕ) (key : String) (set handler : ℕ) :
    CloudClientManager :=
  let left := (s.sets set).filter fun h => decide (h ≠ handler)
  let s := s.setHandlers set left
  if left = [] then s.setEntry e { s.heap e with handlers := (s.heap e).handlers.delete key } else s

def release (s : CloudClientManager) (credentialKey : String) (e : ℕ) : CloudClientManager :=
  let s := s.addRef e (-1)
  if (s.heap e).refCount = 0 then s.teardown credentialKey e else s

def sdkResolved (s : CloudClientManager) (i c : ℕ) : CloudClientManager :=
  let client := s.clients c
  let registrations := client.registrations ++ [(s.subs i).registration]
  (s.setClient c { client with registrations := registrations }).setPhase i .resolved

/-- The second `catch` of `subscribe`. -/
def sdkThrew (s : CloudClientManager) (i set : ℕ) : CloudClientManager :=
  let sub := s.subs i
  let s := s.unmark sub.entry sub.key
  let s := s.deleteHandler sub.entry sub.key set sub.handler
  (s.release sub.credentialKey sub.entry).setPhase i .rejected

/-- The function that `subscribe` returns. -/
def tearDown (s : CloudClientManager) (i : ℕ) : CloudClientManager :=
  let sub := s.subs i
  let s :=
    match (s.heap sub.entry).handlers.get sub.key with
    | some set => s.deleteHandler sub.entry sub.key set sub.handler
    | none => s
  (s.release sub.credentialKey sub.entry).setPhase i .released

/-- A callback up to its loop. -/
def onValue (s : CloudClientManager) (callback : Callback) (value : JsValue) : CloudClientManager :=
  match (s.heap callback.entry).handlers.get callback.key with
  | none => s
  | some set => { s with delivery := some ⟨callback, set, value, []⟩ }

/-- The handlers of the set that the loop has yet to call. -/
def ahead (s : CloudClientManager) (d : Delivery) : List ℕ :=
  (s.sets d.set).filter fun h => decide (h ∉ d.called)

/-- One turn of the loop. -/
def call (s : CloudClientManager) (d : Delivery) (handler : ℕ) (outcome : Except String Unit) :
    CloudClientManager :=
  let s := { s with delivery := some { d with called := d.called ++ [handler] } }
  match outcome with
  | .ok _ => s
  | .error err =>
    { s with console := s.console ++ ["[arduino-cloud] property-value handler threw: " ++ err] }

/-! ### The machine -/

inductive Event
  | subscribe (credentialKey : String) (credential : CloudCredential)
      (thingId variableName : String) (handler : ℕ)
  | connected (c : ℕ)
  | connectFailed (c : ℕ)
  | connectSettled (i : ℕ)
  | resume (i : ℕ)
  | sdkResolved (i : ℕ)
  | sdkThrew (i : ℕ)
  | tearDown (i : ℕ)
  | deliver (c : ℕ) (r : Registration) (value : JsValue)
  | call (outcome : Except String Unit)
  | delivered

/-- What can happen while a callback walks over its handlers: they may subscribe and tear down. -/
def Event.synchronous : Event → Bool
  | .subscribe .. => true
  | .tearDown _ => true
  | .call _ => true
  | .delivered => true
  | _ => false

def turn (s : CloudClientManager) : Event → Option CloudClientManager
  | .subscribe credentialKey credential thingId variableName handler =>
    some (s.subscribe credentialKey credential thingId variableName handler)
  | .connected c => if (s.clients c).state = .connecting then some (s.connected c) else none
  | .connectFailed c =>
    if (s.clients c).state = .connecting then some (s.setState c .failed) else none
  | .connectSettled i =>
    match (s.subs i).phase with
    | .opening c =>
      if (s.clients c).state ≠ .connecting then some (s.connectSettled i c) else none
    | _ => none
  | .resume i =>
    match (s.subs i).phase with
    | .awaiting c =>
      match (s.clients c).state with
      | .connecting => none
      | .failed => some (s.connectThrew i)
      | _ => some (s.join i c)
    | _ => none
  | .sdkResolved i =>
    match (s.subs i).phase with
    | .subscribing c _ => some (s.sdkResolved i c)
    | _ => none
  | .sdkThrew i =>
    match (s.subs i).phase with
    | .subscribing _ set => some (s.sdkThrew i set)
    | _ => none
  | .tearDown i =>
    match (s.subs i).phase with
    | .resolved => some (s.tearDown i)
    | .released => some (s.tearDown i)
    | _ => none
  | .deliver c r value =>
    if r ∈ (s.clients c).registrations then some (s.onValue r.callback value) else none
  | .call outcome =>
    match s.delivery with
    | some d =>
      match s.ahead d with
      | handler :: _ => some (s.call d handler outcome)
      | [] => none
    | none => none
  | .delivered =>
    match s.delivery with
    | some d => if s.ahead d = [] then some { s with delivery := none } else none
    | none => none

def step (s : CloudClientManager) (e : Event) : Option CloudClientManager :=
  if s.delivery.isSome = true ∧ e.synchronous = false then none else s.turn e

def machine : Machine CloudClientManager Event where
  init s := s = initial
  step := step

/-! ### The steps -/

/-- What a step does, and when. -/
inductive Turns (s : CloudClientManager) : Event → CloudClientManager → Prop
  | subscribe (credentialKey : String) (credential : CloudCredential)
      (thingId variableName : String) (handler : ℕ) :
      Turns s (.subscribe credentialKey credential thingId variableName handler)
        (s.subscribe credentialKey credential thingId variableName handler)
  | connected (c : ℕ) : (s.clients c).state = .connecting → Turns s (.connected c) (s.connected c)
  | connectFailed (c : ℕ) : (s.clients c).state = .connecting →
      Turns s (.connectFailed c) (s.setState c .failed)
  | connectSettled (i c : ℕ) : (s.subs i).phase = .opening c → (s.clients c).state ≠ .connecting →
      Turns s (.connectSettled i) (s.connectSettled i c)
  | connectThrew (i c : ℕ) : (s.subs i).phase = .awaiting c → (s.clients c).state = .failed →
      Turns s (.resume i) (s.connectThrew i)
  | join (i c : ℕ) : (s.subs i).phase = .awaiting c →
      (s.clients c).state = .connected ∨ (s.clients c).state = .disconnected →
      Turns s (.resume i) (s.join i c)
  | sdkResolved (i c set : ℕ) : (s.subs i).phase = .subscribing c set →
      Turns s (.sdkResolved i) (s.sdkResolved i c)
  | sdkThrew (i c set : ℕ) : (s.subs i).phase = .subscribing c set →
      Turns s (.sdkThrew i) (s.sdkThrew i set)
  | tearDown (i : ℕ) : (s.subs i).phase = .resolved ∨ (s.subs i).phase = .released →
      Turns s (.tearDown i) (s.tearDown i)
  | deliver (c : ℕ) (r : Registration) (value : JsValue) : r ∈ (s.clients c).registrations →
      Turns s (.deliver c r value) (s.onValue r.callback value)
  | call (d : Delivery) (handler : ℕ) (rest : List ℕ) (outcome : Except String Unit) :
      s.delivery = some d → s.ahead d = handler :: rest →
      Turns s (.call outcome) (s.call d handler outcome)
  | delivered (d : Delivery) : s.delivery = some d → s.ahead d = [] →
      Turns s .delivered { s with delivery := none }

theorem turns_of_turn {s t : CloudClientManager} {e : Event} (ht : s.turn e = some t) :
    s.Turns e t := by
  unfold turn at ht
  split at ht
  next =>
    cases ht
    exact .subscribe ..
  next c =>
    split at ht
    next hc =>
      cases ht
      exact .connected c hc
    next => contradiction
  next c =>
    split at ht
    next hc =>
      cases ht
      exact .connectFailed c hc
    next => contradiction
  next i =>
    split at ht
    next c hi =>
      split at ht
      next hc =>
        cases ht
        exact .connectSettled i c hi hc
      next => contradiction
    next => contradiction
  next i =>
    split at ht
    next c hi =>
      cases hc : (s.clients c).state with
      | connecting => simp [hc] at ht
      | failed =>
        simp only [hc] at ht
        cases ht
        exact .connectThrew i c hi hc
      | connected =>
        simp only [hc] at ht
        cases ht
        exact .join i c hi (Or.inl hc)
      | disconnected =>
        simp only [hc] at ht
        cases ht
        exact .join i c hi (Or.inr hc)
    next => contradiction
  next i =>
    split at ht
    next c set hi =>
      cases ht
      exact .sdkResolved i c set hi
    next => contradiction
  next i =>
    split at ht
    next c set hi =>
      cases ht
      exact .sdkThrew i c set hi
    next => contradiction
  next i =>
    split at ht
    next hi =>
      cases ht
      exact .tearDown i (Or.inl hi)
    next hi =>
      cases ht
      exact .tearDown i (Or.inr hi)
    next => contradiction
  next c r value =>
    split at ht
    next hr =>
      cases ht
      exact .deliver c r value hr
    next => contradiction
  next outcome =>
    split at ht
    next d hd =>
      split at ht
      next handler rest hahead =>
        cases ht
        exact .call d handler rest outcome hd hahead
      next => contradiction
    next => contradiction
  next =>
    split at ht
    next d hd =>
      split at ht
      next hahead =>
        cases ht
        exact .delivered d hd hahead
      next => contradiction
    next => contradiction

/-- Only what handlers do can happen while a callback walks over them. -/
theorem turns_of_step {s t : CloudClientManager} {e : Event} (hs : s.step e = some t) :
    s.Turns e t ∧ (e.synchronous = false → s.delivery = none) := by
  unfold step at hs
  split at hs
  next => contradiction
  next hidle =>
    refine ⟨turns_of_turn hs, fun he => ?_⟩
    cases hd : s.delivery with
    | none => rfl
    | some d => exact absurd ⟨by rw [hd]; rfl, he⟩ hidle

end CloudClientManager

end UnoQ.Cloud
