import Mathlib.Data.Int.Notation
import Mathlib.Logic.Function.Basic
import UnoQ.Lib.InsertMap
import UnoQ.Lib.Transition
import UnoQ.Transport.Descriptor

/-!
# The bridge manager

`BridgeManager.ts` as a machine. An entry is an object that suspended calls keep a
reference to, so entries live in a heap and the `entries` map holds references.
A call runs without interruption up to its next `await`; every continuation is an
event of its own. The continuations of a finished background close are promise
reactions: they run, in any order, before the next socket can finish connecting.
-/

namespace UnoQ.Manager
open Transport

/-- Entries, bridges and calls are numbered in the order they are made. The close promise in
`pendingClose` is named by the bridge it closes. -/
structure BridgeEntry where
  bridge : Option ℕ
  refCount : ℤ
  methodRefs : InsertMap String ℕ
  pendingClose : Option ℕ
  descriptor : TransportDescriptor

def BridgeEntry.new (descriptor : TransportDescriptor) : BridgeEntry where
  bridge := none
  refCount := 0
  methodRefs := InsertMap.empty
  pendingClose := none
  descriptor := descriptor

/-- What a bridge is doing; `closing e` is the background close scheduled by a release of entry `e`,
the drain of its handlers included. -/
inductive Status
  | absent
  | connecting
  | opened
  | closing (entry : ℕ)
  | closed
  deriving DecidableEq

structure BridgeInfo where
  key : String
  status : Status

inductive Kind
  | acquire
  | getBridge
  deriving DecidableEq

/-- Where a call stands. `resuming`: the close it waited for is done and its continuation is due.
`building`: it found no bridge and awaits the transport, `connecting`: it awaits `Bridge.connect`. -/
inductive Pc
  | idle
  | awaitingClose (bridge : ℕ)
  | resuming
  | building
  | connecting (bridge : ℕ)
  | returned (bridge : ℕ)
  | failed
  | released (bridge : ℕ)
  deriving DecidableEq

structure Call where
  kind : Kind
  descriptor : TransportDescriptor
  sshCredential : Bool
  entry : ℕ
  pc : Pc

def Call.key (call : Call) : String := describeTransport call.descriptor

def Pc.busy : Pc → Bool
  | .building => true
  | .connecting _ => true
  | _ => false

structure BridgeManager where
  entries : InsertMap String ℕ
  heap : ℕ → BridgeEntry
  nextEntry : ℕ
  bridges : ℕ → BridgeInfo
  nextBridge : ℕ
  calls : ℕ → Call
  nextCall : ℕ

namespace BridgeManager

def setEntry (s : BridgeManager) (e : ℕ) (entry : BridgeEntry) : BridgeManager :=
  { s with heap := Function.update s.heap e entry }

def setBridge (s : BridgeManager) (b : ℕ) (key : String) (status : Status) : BridgeManager :=
  { s with bridges := Function.update s.bridges b ⟨key, status⟩ }

def setCall (s : BridgeManager) (c : ℕ) (call : Call) : BridgeManager :=
  { s with calls := Function.update s.calls c call }

def setPc (s : BridgeManager) (c : ℕ) (pc : Pc) : BridgeManager :=
  s.setCall c { s.calls c with pc := pc }

def addRef (s : BridgeManager) (e : ℕ) (n : ℤ) : BridgeManager :=
  s.setEntry e { s.heap e with refCount := (s.heap e).refCount + n }

theorem setEntry_heap (s : BridgeManager) (e x : ℕ) (entry : BridgeEntry) :
    (s.setEntry e entry).heap x = if x = e then entry else s.heap x :=
  Function.update_apply s.heap e entry x

theorem setCall_calls (s : BridgeManager) (c x : ℕ) (call : Call) :
    (s.setCall c call).calls x = if x = c then call else s.calls x :=
  Function.update_apply s.calls c call x

theorem setPc_calls (s : BridgeManager) (c x : ℕ) (pc : Pc) :
    (s.setPc c pc).calls x = if x = c then { s.calls c with pc := pc } else s.calls x :=
  setCall_calls s c x _

/-- No continuation of a finished close of the entry is due. -/
def settled (s : BridgeManager) (e : ℕ) : Prop :=
  ∀ c < s.nextCall, (s.calls c).entry = e → (s.calls c).pc ≠ .resuming

instance (s : BridgeManager) (e : ℕ) : Decidable (s.settled e) :=
  inferInstanceAs (Decidable (∀ c < s.nextCall, _))

/-! ### The operations -/

def allocEntry (s : BridgeManager) (descriptor : TransportDescriptor) : BridgeManager :=
  { s with
    entries := s.entries.set (describeTransport descriptor) s.nextEntry
    heap := Function.update s.heap s.nextEntry (.new descriptor)
    nextEntry := s.nextEntry + 1 }

theorem allocEntry_heap (s : BridgeManager) (d : TransportDescriptor) (x : ℕ) :
    (s.allocEntry d).heap x = if x = s.nextEntry then .new d else s.heap x :=
  Function.update_apply s.heap s.nextEntry _ x

def getEntry (s : BridgeManager) (descriptor : TransportDescriptor) : BridgeManager × ℕ :=
  match s.entries.get (describeTransport descriptor) with
  | some e => (s, e)
  | none => (s.allocEntry descriptor, s.nextEntry)

def countOwner (s : BridgeManager) (call : Call) (n : ℤ) : BridgeManager :=
  match call.kind with
  | .acquire => s.addRef call.entry n
  | .getBridge => s

def takeBridge (s : BridgeManager) (c : ℕ) (call : Call) : BridgeManager :=
  match (s.heap call.entry).bridge with
  | none => s.setCall c { call with pc := .building }
  | some b => s.setCall c { call with pc := .returned b }

/-- Both operations from where `pendingClose` is out of the way. -/
def proceed (s : BridgeManager) (c : ℕ) (call : Call) : BridgeManager :=
  (s.countOwner call 1).takeBridge c call

def start (s : BridgeManager) (kind : Kind) (descriptor : TransportDescriptor) (sshCredential : Bool) :
    BridgeManager :=
  let r := s.getEntry descriptor
  let c := r.1.nextCall
  let s := { r.1 with nextCall := c + 1 }
  let call : Call := ⟨kind, descriptor, sshCredential, r.2, .resuming⟩
  match (s.heap r.2).pendingClose with
  | some p => s.setCall c { call with pc := .awaitingClose p }
  | none => s.proceed c call

def acquire (s : BridgeManager) (descriptor : TransportDescriptor) (sshCredential : Bool) : BridgeManager :=
  s.start .acquire descriptor sshCredential

def getBridge (s : BridgeManager) (descriptor : TransportDescriptor) (sshCredential : Bool) : BridgeManager :=
  s.start .getBridge descriptor sshCredential

/-- No transport is built (`buildTransportInstance`) for an ssh descriptor without a credential. -/
def canBuild (call : Call) : Bool := !call.descriptor.isSsh || call.sshCredential

def built (s : BridgeManager) (c : ℕ) : BridgeManager :=
  { s.setBridge s.nextBridge (s.calls c).key .connecting with nextBridge := s.nextBridge + 1 }.setPc c
    (.connecting s.nextBridge)

def connected (s : BridgeManager) (c : ℕ) (b : ℕ) : BridgeManager :=
  let e := (s.calls c).entry
  ((s.setBridge b (s.calls c).key .opened).setEntry e { s.heap e with bridge := some b }).setPc c
    (.returned b)

/-- The `catch` of `acquire` drops an entry that nothing keeps alive. -/
def dropFailed (s : BridgeManager) (call : Call) : BridgeManager :=
  let entry := s.heap call.entry
  if call.kind = .acquire ∧ entry.refCount = 0 ∧ entry.methodRefs.size = 0 ∧
      entry.pendingClose = none then
    { s with entries := s.entries.delete call.key }
  else s

def connectFailed (s : BridgeManager) (c : ℕ) : BridgeManager :=
  ((s.setPc c .failed).countOwner (s.calls c) (-1)).dropFailed (s.calls c)

def giveBack (s : BridgeManager) (holder : Option ℕ) : BridgeManager :=
  match holder with
  | none => s
  | some c =>
    match (s.calls c).pc with
    | .returned b => s.setPc c (.released b)
    | _ => s

/-- The last owner takes the bridge off the entry and schedules its close. -/
def beginClose (s : BridgeManager) (e b : ℕ) : BridgeManager :=
  (s.setEntry e { s.heap e with bridge := none, refCount := 0, pendingClose := some b }).setBridge b
    (s.bridges b).key (.closing e)

def releaseRef (s : BridgeManager) (e : ℕ) : BridgeManager :=
  let s := s.addRef e (-1)
  match (s.heap e).bridge with
  | none => s
  | some b => if (s.heap e).refCount ≤ 0 then s.beginClose e b else s

/-- The code of `release` takes the descriptor only; `holder` names the call whose bridge is given back. -/
def release (s : BridgeManager) (descriptor : TransportDescriptor) (holder : Option ℕ) :
    BridgeManager :=
  match s.entries.get (describeTransport descriptor) with
  | none => s.giveBack holder
  | some e => (s.giveBack holder).releaseRef e

/-- The background close of `b` ends, and the calls that waited for it become due. -/
def finishClose (s : BridgeManager) (b e : ℕ) : BridgeManager :=
  let entry := s.heap e
  let s := (s.setBridge b (s.bridges b).key .closed).setEntry e
    { entry with
      pendingClose := if entry.pendingClose = some b then none else entry.pendingClose }
  { s with calls := fun c =>
      if (s.calls c).pc = .awaitingClose b then { s.calls c with pc := .resuming } else s.calls c }

theorem finishClose_calls (s : BridgeManager) (b e x : ℕ) :
    (s.finishClose b e).calls x =
      if (s.calls x).pc = .awaitingClose b then { s.calls x with pc := .resuming } else s.calls x :=
  rfl

/-- The `finally` handler drops an entry that nothing keeps alive. -/
def dropClosed (s : BridgeManager) (key : String) (e : ℕ) : BridgeManager :=
  let entry := s.heap e
  if entry.refCount = 0 ∧ entry.bridge = none ∧ entry.methodRefs.size = 0 ∧
      entry.pendingClose = none then
    { s with entries := s.entries.delete key }
  else s

def closeDone (s : BridgeManager) (b e : ℕ) : BridgeManager :=
  (s.finishClose b e).dropClosed (s.bridges b).key e

def addMethodRef (s : BridgeManager) (descriptor : TransportDescriptor) (method : String) :
    BridgeManager × Bool :=
  let r := s.getEntry descriptor
  let entry := r.1.heap r.2
  let current := (entry.methodRefs.get method).getD 0
  (r.1.setEntry r.2 { entry with methodRefs := entry.methodRefs.set method (current + 1) },
    current = 0)

def removeMethodRef (s : BridgeManager) (descriptor : TransportDescriptor) (method : String) :
    BridgeManager × Bool :=
  let r := s.getEntry descriptor
  let entry := r.1.heap r.2
  let current := (entry.methodRefs.get method).getD 0
  if current ≤ 1 then
    (r.1.setEntry r.2 { entry with methodRefs := entry.methodRefs.delete method }, true)
  else
    (r.1.setEntry r.2 { entry with methodRefs := entry.methodRefs.set method (current - 1) }, false)

/-! ### The machine -/

def initial : BridgeManager where
  entries := InsertMap.empty
  heap _ := .new (.unix "")
  nextEntry := 0
  bridges _ := ⟨"", .absent⟩
  nextBridge := 0
  calls _ := ⟨.getBridge, .unix "", false, 0, .idle⟩
  nextCall := 0

inductive Event
  | acquire (descriptor : TransportDescriptor) (sshCredential : Bool)
  | getBridge (descriptor : TransportDescriptor) (sshCredential : Bool)
  | release (descriptor : TransportDescriptor) (holder : Option ℕ)
  | addMethodRef (descriptor : TransportDescriptor) (method : String)
  | removeMethodRef (descriptor : TransportDescriptor) (method : String)
  | resume (c : ℕ)
  | built (c : ℕ)
  | buildFailed (c : ℕ)
  | connected (c : ℕ)
  | connectFailed (c : ℕ)
  | closeDone (b : ℕ)
  deriving DecidableEq

def step (s : BridgeManager) : Event → Option BridgeManager
  | .acquire d cred => some (s.acquire d cred)
  | .getBridge d cred => some (s.getBridge d cred)
  | .release d holder => some (s.release d holder)
  | .addMethodRef d m => some (s.addMethodRef d m).1
  | .removeMethodRef d m => some (s.removeMethodRef d m).1
  | .resume c => if (s.calls c).pc = .resuming then some (s.proceed c (s.calls c)) else none
  | .built c =>
    if (s.calls c).pc = .building ∧ canBuild (s.calls c) = true then some (s.built c) else none
  | .buildFailed c => if (s.calls c).pc = .building then some (s.connectFailed c) else none
  | .connected c =>
    match (s.calls c).pc with
    | .connecting b => if s.settled (s.calls c).entry then some (s.connected c b) else none
    | _ => none
  | .connectFailed c =>
    match (s.calls c).pc with
    | .connecting b => some ((s.setBridge b (s.bridges b).key .closed).connectFailed c)
    | _ => none
  | .closeDone b =>
    match (s.bridges b).status with
    | .closing e => some (s.closeDone b e)
    | _ => none

def machine : Transition.Machine BridgeManager Event where
  init s := s = initial
  step := step

/-- What an event leads to, and when it can happen. -/
inductive Takes (s : BridgeManager) : Event → BridgeManager → Prop
  | acquire (d : TransportDescriptor) (cred : Bool) : s.Takes (.acquire d cred) (s.acquire d cred)
  | getBridge (d : TransportDescriptor) (cred : Bool) :
    s.Takes (.getBridge d cred) (s.getBridge d cred)
  | release (d : TransportDescriptor) (holder : Option ℕ) :
    s.Takes (.release d holder) (s.release d holder)
  | addMethodRef (d : TransportDescriptor) (m : String) :
    s.Takes (.addMethodRef d m) (s.addMethodRef d m).1
  | removeMethodRef (d : TransportDescriptor) (m : String) :
    s.Takes (.removeMethodRef d m) (s.removeMethodRef d m).1
  | resume (c : ℕ) (hpc : (s.calls c).pc = .resuming) :
    s.Takes (.resume c) (s.proceed c (s.calls c))
  | built (c : ℕ) (hpc : (s.calls c).pc = .building ∧ canBuild (s.calls c) = true) :
    s.Takes (.built c) (s.built c)
  | buildFailed (c : ℕ) (hpc : (s.calls c).pc = .building) :
    s.Takes (.buildFailed c) (s.connectFailed c)
  | connected (c b : ℕ) (hpc : (s.calls c).pc = .connecting b)
    (hsettled : s.settled (s.calls c).entry) : s.Takes (.connected c) (s.connected c b)
  | connectFailed (c b : ℕ) (hpc : (s.calls c).pc = .connecting b) :
    s.Takes (.connectFailed c) ((s.setBridge b (s.bridges b).key .closed).connectFailed c)
  | closeDone (b e : ℕ) (hclosing : (s.bridges b).status = .closing e) :
    s.Takes (.closeDone b) (s.closeDone b e)

theorem step_takes {s t : BridgeManager} {ev : Event} (h : s.step ev = some t) : s.Takes ev t := by
  cases ev with
  | acquire d cred =>
    cases h
    exact .acquire d cred
  | getBridge d cred =>
    cases h
    exact .getBridge d cred
  | release d holder =>
    cases h
    exact .release d holder
  | addMethodRef d m =>
    cases h
    exact .addMethodRef d m
  | removeMethodRef d m =>
    cases h
    exact .removeMethodRef d m
  | resume c =>
    simp only [step] at h
    split at h
    next hpc =>
      cases h
      exact .resume c hpc
    next => contradiction
  | built c =>
    simp only [step] at h
    split at h
    next hpc =>
      cases h
      exact .built c hpc
    next => contradiction
  | buildFailed c =>
    simp only [step] at h
    split at h
    next hpc =>
      cases h
      exact .buildFailed c hpc
    next => contradiction
  | connected c =>
    simp only [step] at h
    split at h
    next b hpc =>
      split at h
      next hsettled =>
        cases h
        exact .connected c b hpc hsettled
      next => contradiction
    next => contradiction
  | connectFailed c =>
    simp only [step] at h
    split at h
    next b hpc =>
      cases h
      exact .connectFailed c b hpc
    next => contradiction
  | closeDone b =>
    simp only [step] at h
    split at h
    next e hclosing =>
      cases h
      exact .closeDone b e hclosing
    next => contradiction

/-! ### Orderly steps -/

/-- The key for which an event makes a call start connecting: it finds no bridge and nothing to
wait for. -/
def startsConnecting (s : BridgeManager) : Event → Option String
  | .acquire d _ | .getBridge d _ =>
    match s.entries.get (describeTransport d) with
    | none => some (describeTransport d)
    | some e =>
      if (s.heap e).pendingClose = none ∧ (s.heap e).bridge = none then some (describeTransport d)
      else none
  | .resume c => if (s.heap (s.calls c).entry).bridge = none then some (s.calls c).key else none
  | _ => none

def connectingFor (s : BridgeManager) (key : String) : Prop :=
  ∃ c < s.nextCall, (s.calls c).pc.busy = true ∧ (s.calls c).key = key

instance (s : BridgeManager) (key : String) : Decidable (s.connectingFor key) :=
  inferInstanceAs (Decidable (∃ c < s.nextCall, _))

/-- The call has a bridge from `acquire` that it has not given back. -/
def owes (s : BridgeManager) (key : String) (c : ℕ) : Prop :=
  (s.calls c).kind = .acquire ∧ (s.calls c).key = key ∧
    match (s.calls c).pc with
    | .returned _ => True
    | _ => False

instance (s : BridgeManager) (key : String) (c : ℕ) : Decidable (s.owes key c) := by
  unfold owes
  cases (s.calls c).pc <;> exact inferInstance

/-- Every release gives back the bridge of a successful `acquire` of its key. -/
def Matched : Transition.Guard BridgeManager Event := fun s ev _ =>
  match ev with
  | .release d holder => ∃ c ∈ holder, s.owes (describeTransport d) c
  | _ => True

/-- A call resumed after a background close finds the entry it looked up still in the map. -/
def FindsEntry : Transition.Guard BridgeManager Event := fun s ev _ =>
  match ev with
  | .resume c => s.entries.get (s.calls c).key = some (s.calls c).entry
  | _ => True

/-- No call starts connecting while another one is connecting for the same key. -/
def ConnectsAlone : Transition.Guard BridgeManager Event := fun s ev _ =>
  ∀ key ∈ s.startsConnecting ev, ¬ s.connectingFor key

def Orderly : Transition.Guard BridgeManager Event := fun s ev t =>
  ConnectsAlone s ev t ∧ FindsEntry s ev t ∧ Matched s ev t

instance : ∀ s ev t, Decidable (Matched s ev t) := by
  intro s ev t
  unfold Matched
  cases ev <;> exact inferInstance

instance : ∀ s ev t, Decidable (FindsEntry s ev t) := by
  intro s ev t
  unfold FindsEntry
  cases ev <;> exact inferInstance

instance : ∀ s ev t, Decidable (ConnectsAlone s ev t) := fun s ev _ =>
  inferInstanceAs (Decidable (∀ key ∈ s.startsConnecting ev, ¬ s.connectingFor key))

instance : ∀ s ev t, Decidable (Orderly s ev t) := fun s ev t =>
  inferInstanceAs (Decidable (ConnectsAlone s ev t ∧ FindsEntry s ev t ∧ Matched s ev t))

end BridgeManager

end UnoQ.Manager
