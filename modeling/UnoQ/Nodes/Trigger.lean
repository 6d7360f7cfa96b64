import UnoQ.Manager.BridgeManager

/-!
# Trigger nodes

`UnoQTrigger.node.ts` over one bridge manager. A node's `trigger()` acquires the bridge of its
transport, counts its method, and registers a handler in one of the two tables of the bridge; its
`closeFunction` undoes what it undoes. `trigger()` and `closeFunction` run without interruption up to
their next `await`. What a handler does besides its `emit` is left to the model of deferred requests.
-/

namespace UnoQ.Nodes
open Transport Manager Transition

inductive TriggerMode
  | notify
  | request
  deriving DecidableEq

/-- Where a node stands. `registering`: `bridge.provide` or `bridge.onNotify` awaits `$/register`,
`active`: `trigger()` has resolved, `closing`: `closeFunction` awaits `unsubscribe`. -/
inductive TriggerPc
  | absent
  | acquiring
  | registering (bridge : ℕ)
  | active (bridge : ℕ)
  | closing (bridge : ℕ)
  | closed (bridge : ℕ)
  | failed
  deriving DecidableEq

/-- A node by its parameters, and its call of `acquire`. The response mode does not matter to its
registration. -/
structure UnoQTrigger where
  method : String
  mode : TriggerMode
  descriptor : TransportDescriptor
  call : ℕ
  pc : TriggerPc

def UnoQTrigger.key (t : UnoQTrigger) : String := describeTransport t.descriptor

/-- The two tables of a bridge. A handler is named by its node. -/
structure HandlerTables where
  providers : InsertMap String ℕ
  notifyHandlers : InsertMap String (List ℕ)

/-- A node has been stored as the handler of REQUESTs for its method. -/
structure Provision where
  bridge : ℕ
  method : String
  trigger : ℕ

structure Triggers where
  manager : BridgeManager
  tables : ℕ → HandlerTables
  triggers : ℕ → UnoQTrigger
  nextTrigger : ℕ
  provisions : List Provision

namespace Triggers

def initial : Triggers where
  manager := BridgeManager.initial
  tables _ := ⟨InsertMap.empty, InsertMap.empty⟩
  triggers _ := ⟨"", .notify, .unix "", 0, .absent⟩
  nextTrigger := 0
  provisions := []

def setPc (s : Triggers) (x : ℕ) (pc : TriggerPc) : Triggers :=
  { s with triggers := Function.update s.triggers x { s.triggers x with pc := pc } }

def setTables (s : Triggers) (b : ℕ) (tables : HandlerTables) : Triggers :=
  { s with tables := Function.update s.tables b tables }

/-! ### `bridge.provide` and `bridge.onNotify` -/

def setProvider (s : Triggers) (b x : ℕ) : Triggers :=
  let method := (s.triggers x).method
  let tables := s.tables b
  { s.setTables b { tables with providers := tables.providers.set method x } with
    provisions := s.provisions ++ [⟨b, method, x⟩] }

def setOf (s : Triggers) (b : ℕ) (method : String) : List ℕ :=
  ((s.tables b).notifyHandlers.get method).getD []

def setHandlers (s : Triggers) (b : ℕ) (method : String) (handlers : List ℕ) : Triggers :=
  let tables := s.tables b
  s.setTables b { tables with notifyHandlers := tables.notifyHandlers.set method handlers }

def addHandler (s : Triggers) (b x : ℕ) : Triggers :=
  let method := (s.triggers x).method
  s.setHandlers b method (s.setOf b method ++ [x])

def provide (s : Triggers) (b x : ℕ) : Triggers :=
  if (s.tables b).providers.has (s.triggers x).method then
    (s.setProvider b x).setPc x (.active b)
  else s.setPc x (.registering b)

/-- The first subscriber of a method publishes the set before it registers the method. -/
def onNotify (s : Triggers) (b x : ℕ) : Triggers :=
  let method := (s.triggers x).method
  if (s.tables b).notifyHandlers.has method then (s.addHandler b x).setPc x (.active b)
  else
    let s := s.setHandlers b method []
    if (s.tables b).providers.has method then (s.addHandler b x).setPc x (.active b)
    else s.setPc x (.registering b)

/-! ### `UnoQTrigger.trigger` -/

/-- Up to the `await` of `acquire`. -/
def trigger (s : Triggers) (method : String) (mode : TriggerMode) (descriptor : TransportDescriptor)
    (sshCredential : Bool) : Triggers :=
  { s with
    manager := s.manager.acquire descriptor sshCredential
    triggers := Function.update s.triggers s.nextTrigger
      ⟨method, mode, descriptor, s.manager.nextCall, .acquiring⟩
    nextTrigger := s.nextTrigger + 1 }

/-- `removeMethodRef`, then `release`. -/
def withdraw (s : Triggers) (x : ℕ) : Triggers :=
  let t := s.triggers x
  { s with manager :=
      (s.manager.removeMethodRef t.descriptor t.method).1.release t.descriptor (some t.call) }

def register (s : Triggers) (b x : ℕ) : Triggers :=
  match (s.triggers x).mode with
  | .notify => s.onNotify b x
  | .request => s.provide b x

/-- On from the `await` of `acquire`. -/
def acquired (s : Triggers) (b x : ℕ) : Triggers :=
  let t := s.triggers x
  let r := s.manager.addMethodRef t.descriptor t.method
  let s := { s with manager := r.1 }
  if t.mode = .request ∧ r.2 = false then (s.withdraw x).setPc x .failed
  else s.register b x

/-- `$/register` has been answered. -/
def registered (s : Triggers) (b x : ℕ) : Triggers :=
  match (s.triggers x).mode with
  | .notify => (s.addHandler b x).setPc x (.active b)
  | .request => (s.setProvider b x).setPc x (.active b)

/-- The `catch` of `trigger`. -/
def registerFailed (s : Triggers) (x : ℕ) : Triggers := (s.withdraw x).setPc x .failed

/-! ### `closeFunction` -/

/-- In Request mode there is nothing to undo. -/
def unsubscribe (s : Triggers) (b x : ℕ) : Triggers :=
  let method := (s.triggers x).method
  match (s.triggers x).mode with
  | .notify => s.setHandlers b method ((s.setOf b method).filter fun h => decide (h ≠ x))
  | .request => s

def closeFunction (s : Triggers) (b x : ℕ) : Triggers := (s.unsubscribe b x).setPc x (.closing b)

def closed (s : Triggers) (b x : ℕ) : Triggers := (s.withdraw x).setPc x (.closed b)

/-! ### The machine -/

inductive Event
  | trigger (method : String) (mode : TriggerMode) (descriptor : TransportDescriptor)
      (sshCredential : Bool)
  | manager (ev : BridgeManager.Event)
  | acquired (x : ℕ)
  | acquireFailed (x : ℕ)
  | registered (x : ℕ)
  | registerFailed (x : ℕ)
  | closeFunction (x : ℕ)
  | closed (x : ℕ)
  | request (bridge : ℕ) (method : String)
  | notify (bridge : ℕ) (method : String)

/-- What happens to the manager by itself, and the calls of the other nodes. -/
def ownEvent : BridgeManager.Event → Bool
  | .acquire .. => false
  | .release .. => false
  | .addMethodRef .. => false
  | .removeMethodRef .. => false
  | _ => true

/-- Messages come in until the transport of the bridge is closed, also while it drains. -/
def receives (s : Triggers) (b : ℕ) : Bool :=
  match (s.manager.bridges b).status with
  | .opened => true
  | .closing _ => true
  | _ => false

/-- The nodes whose `emit` a message makes the bridge call. -/
def emits (s : Triggers) : Event → List ℕ
  | .request b method => ((s.tables b).providers.get method).toList
  | .notify b method => s.setOf b method
  | _ => []

def step (s : Triggers) : Event → Option Triggers
  | .trigger method mode d cred => some (s.trigger method mode d cred)
  | .manager ev =>
    if ownEvent ev then (s.manager.step ev).map fun manager => { s with manager := manager } else none
  | .acquired x =>
    match (s.triggers x).pc, (s.manager.calls (s.triggers x).call).pc with
    | .acquiring, .returned b => some (s.acquired b x)
    | _, _ => none
  | .acquireFailed x =>
    if (s.triggers x).pc = .acquiring ∧ (s.manager.calls (s.triggers x).call).pc = .failed then
      some (s.setPc x .failed)
    else none
  | .registered x =>
    match (s.triggers x).pc with
    | .registering b => some (s.registered b x)
    | _ => none
  | .registerFailed x =>
    match (s.triggers x).pc with
    | .registering _ => some (s.registerFailed x)
    | _ => none
  | .closeFunction x =>
    match (s.triggers x).pc with
    | .active b => some (s.closeFunction b x)
    | _ => none
  | .closed x =>
    match (s.triggers x).pc with
    | .closing b => some (s.closed b x)
    | _ => none
  | .request b _ => if s.receives b then some s else none
  | .notify b _ => if s.receives b then some s else none

def machine : Machine Triggers Event where
  init s := s = initial
  step := step

/-- What an event leads to, and when it can happen. -/
inductive Takes (s : Triggers) : Event → Triggers → Prop
  | trigger (method : String) (mode : TriggerMode) (d : TransportDescriptor) (cred : Bool) :
    s.Takes (.trigger method mode d cred) (s.trigger method mode d cred)
  | manager (ev : BridgeManager.Event) (manager : BridgeManager) (hown : ownEvent ev = true)
    (hmanager : s.manager.step ev = some manager) :
    s.Takes (.manager ev) { s with manager := manager }
  | acquired (x b : ℕ) (hx : (s.triggers x).pc = .acquiring)
    (hcall : (s.manager.calls (s.triggers x).call).pc = .returned b) :
    s.Takes (.acquired x) (s.acquired b x)
  | acquireFailed (x : ℕ) (hx : (s.triggers x).pc = .acquiring ∧
    (s.manager.calls (s.triggers x).call).pc = .failed) :
    s.Takes (.acquireFailed x) (s.setPc x .failed)
  | registered (x b : ℕ) (hx : (s.triggers x).pc = .registering b) :
    s.Takes (.registered x) (s.registered b x)
  | registerFailed (x b : ℕ) (hx : (s.triggers x).pc = .registering b) :
    s.Takes (.registerFailed x) (s.registerFailed x)
  | closeFunction (x b : ℕ) (hx : (s.triggers x).pc = .active b) :
    s.Takes (.closeFunction x) (s.closeFunction b x)
  | closed (x b : ℕ) (hx : (s.triggers x).pc = .closing b) : s.Takes (.closed x) (s.closed b x)
  | request (b : ℕ) (method : String) : s.Takes (.request b method) s
  | notify (b : ℕ) (method : String) : s.Takes (.notify b method) s

theorem step_takes {s t : Triggers} {ev : Event} (h : s.step ev = some t) : s.Takes ev t := by
  cases ev with
  | trigger method mode d cred =>
    cases h
    exact .trigger method mode d cred
  | manager ev =>
    simp only [step] at h
    split at h
    next hown =>
      obtain ⟨manager, hmanager, rfl⟩ := Option.map_eq_some_iff.mp h
      exact .manager ev manager hown hmanager
    next => contradiction
  | acquired x =>
    simp only [step] at h
    split at h
    next b hx hcall =>
      cases h
      exact .acquired x b hx hcall
    next => contradiction
  | acquireFailed x =>
    simp only [step] at h
    split at h
    next hx =>
      cases h
      exact .acquireFailed x hx
    next => contradiction
  | registered x =>
    simp only [step] at h
    split at h
    next b hx =>
      cases h
      exact .registered x b hx
    next => contradiction
  | registerFailed x =>
    simp only [step] at h
    split at h
    next b hx =>
      cases h
      exact .registerFailed x b hx
    next => contradiction
  | closeFunction x =>
    simp only [step] at h
    split at h
    next b hx =>
      cases h
      exact .closeFunction x b hx
    next => contradiction
  | closed x =>
    simp only [step] at h
    split at h
    next b hx =>
      cases h
      exact .closed x b hx
    next => contradiction
  | request b method =>
    simp only [step] at h
    split at h
    next =>
      cases h
      exact .request b method
    next => contradiction
  | notify b method =>
    simp only [step] at h
    split at h
    next =>
      cases h
      exact .notify b method
    next => contradiction

/-! ### Tables and places -/

theorem setPc_triggers (s : Triggers) (x y : ℕ) (pc : TriggerPc) :
    (s.setPc x pc).triggers y = if y = x then { s.triggers x with pc := pc } else s.triggers y :=
  Function.update_apply s.triggers x _ y

theorem setPc_pc (s : Triggers) (x y : ℕ) (pc : TriggerPc) :
    ((s.setPc x pc).triggers y).pc = if y = x then pc else (s.triggers y).pc := by
  rw [setPc_triggers]
  split <;> rfl

/-- The parameters of a node do not change. -/
theorem setPc_static (s : Triggers) (x y : ℕ) (pc : TriggerPc) :
    ((s.setPc x pc).triggers y).method = (s.triggers y).method ∧
      ((s.setPc x pc).triggers y).mode = (s.triggers y).mode ∧
      ((s.setPc x pc).triggers y).descriptor = (s.triggers y).descriptor ∧
      ((s.setPc x pc).triggers y).call = (s.triggers y).call := by
  rw [setPc_triggers]
  split
  next h => rw [h]; exact ⟨rfl, rfl, rfl, rfl⟩
  · exact ⟨rfl, rfl, rfl, rfl⟩

theorem setTables_tables (s : Triggers) (b c : ℕ) (tables : HandlerTables) :
    (s.setTables b tables).tables c = if c = b then tables else s.tables c :=
  Function.update_apply s.tables b tables c

end Triggers

end UnoQ.Nodes
