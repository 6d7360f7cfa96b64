import UnoQ.Cloud.Delivery
import UnoQ.Cloud.Handlers
import UnoQ.Lib.Separated
import UnoQ.Ssh.NodeText

/-!
# Cloud triggers

`ArduinoCloudTrigger.node.ts` over one cloud client manager. A trigger subscribes once, with a handler
that emits what it is called with under the trigger's own Thing and variable, and its `closeFunction`
calls the tear-down. Trigger, subscription and handler have one number.
-/

namespace UnoQ.Cloud
open Transition Codec

/-! ### `trigger()` -/

structure CredentialData where
  clientId : String
  clientSecret : String
  organizationId : Option String

/-- The parameters and credential of a node; `credentialId` is the `id` of the credential it refers
to. -/
structure ArduinoCloudTrigger where
  thingId : String
  variableName : String
  credentialId : Option String
  data : CredentialData

def cloudCredential (data : CredentialData) : CloudCredential where
  clientId := data.clientId
  clientSecret := data.clientSecret
  organizationId := (data.organizationId.map Ssh.trim).filter fun organization => organization ≠ ""

namespace ArduinoCloudTrigger

def credentialKey (node : ArduinoCloudTrigger) : String :=
  node.credentialId.getD (node.data.clientId ++ "\x00" ++ node.data.organizationId.getD "")

/-- The Thing and the variable, or what `trigger()` throws. -/
def subject (node : ArduinoCloudTrigger) : Except String (String × String) :=
  let thingId := Ssh.trim node.thingId
  let variableName := Ssh.trim node.variableName
  if thingId = "" then .error "Thing is required"
  else if variableName = "" then .error "Property Variable Name is required"
  else .ok (thingId, variableName)

end ArduinoCloudTrigger

/-- One call of `emit`, with the delivery that it comes from. -/
structure Emission where
  trigger : ℕ
  delivery : ℕ
  thingId : String
  variableName : String
  value : JsValue

/-- The manager with what the SDK has delivered so far and what the triggers have emitted. -/
structure CloudTriggers where
  manager : CloudClientManager
  delivered : List (Registration × JsValue)
  emitted : List Emission

namespace CloudTriggers

def initial : CloudTriggers := ⟨.initial, [], []⟩

/-- `emit`: the handler whose turn it is calls `emit`, which may throw. -/
inductive Event
  | trigger (node : ArduinoCloudTrigger)
  | closeFunction (i : ℕ)
  | deliver (c : ℕ) (r : Registration) (value : JsValue)
  | emit (outcome : Except String Unit)
  | manager (e : CloudClientManager.Event)

/-- Events of the manager that no trigger and no delivery is behind. -/
def inner : CloudClientManager.Event → Bool
  | .subscribe .. | .tearDown _ | .deliver .. | .call _ => false
  | _ => true

def withManager (s : CloudTriggers) (m : CloudClientManager) : CloudTriggers := { s with manager := m }

/-- What handler `i` emits for the value that is being delivered. -/
def emission (s : CloudTriggers) (i : ℕ) (value : JsValue) : Emission where
  trigger := i
  delivery := s.delivered.length - 1
  thingId := (s.manager.subs i).thingId
  variableName := (s.manager.subs i).variableName
  value := value

def step (s : CloudTriggers) : Event → Option CloudTriggers
  | .trigger node =>
    match node.subject with
    | .error _ => some s
    | .ok (thingId, variableName) =>
      (s.manager.step (.subscribe node.credentialKey (cloudCredential node.data) thingId variableName
        s.manager.nextSub)).map s.withManager
  | .closeFunction i => (s.manager.step (.tearDown i)).map s.withManager
  | .deliver c r value =>
    (s.manager.step (.deliver c r value)).map fun m =>
      { s with manager := m, delivered := s.delivered ++ [(r, value)] }
  | .emit outcome =>
    match s.manager.delivery with
    | none => none
    | some d =>
      match s.manager.ahead d with
      | [] => none
      | i :: _ =>
        (s.manager.step (.call outcome)).map fun m =>
          { s with manager := m, emitted := s.emitted ++ [s.emission i d.value] }
  | .manager e => if inner e then (s.manager.step e).map s.withManager else none

def machine : Machine CloudTriggers Event where
  init s := s = initial
  step := step

/-- The `closeFunction` of a trigger is called once at most. -/
def Closing : Guard CloudTriggers Event := fun s e _ =>
  match e with
  | .closeFunction i => (s.manager.subs i).phase = .resolved
  | _ => True

instance (s : CloudTriggers) : ∀ (e : Event) (t : CloudTriggers), Decidable (Closing s e t)
  | .closeFunction i, _ => inferInstanceAs (Decidable ((s.manager.subs i).phase = .resolved))
  | .trigger _, _ => isTrue trivial
  | .deliver _ _ _, _ => isTrue trivial
  | .emit _, _ => isTrue trivial
  | .manager _, _ => isTrue trivial

/-- No trigger joins its property while a call of the SDK for it is in flight. -/
def joinsFree (s : CloudTriggers) : Event → Bool
  | .manager (.resume i) => decide (s.manager.JoinsFree i)
  | _ => true

def Joining : Guard CloudTriggers Event := fun s e t => Closing s e t ∧ s.joinsFree e = true

instance (s : CloudTriggers) (e : Event) (t : CloudTriggers) : Decidable (Joining s e t) :=
  inferInstanceAs (Decidable (_ ∧ _))

/-- What a step does. -/
inductive Turns (s : CloudTriggers) : Event → CloudTriggers → Prop
  | refused {node : ArduinoCloudTrigger} {message : String} (hnode : node.subject = .error message) :
    Turns s (.trigger node) s
  | trigger {node : ArduinoCloudTrigger} {m : CloudClientManager} {thingId variableName : String}
    (hm : s.manager.step (.subscribe node.credentialKey (cloudCredential node.data) thingId variableName
      s.manager.nextSub) = some m) : Turns s (.trigger node) (s.withManager m)
  | closeFunction {i : ℕ} {m : CloudClientManager} (hm : s.manager.step (.tearDown i) = some m) :
    Turns s (.closeFunction i) (s.withManager m)
  | deliver {c : ℕ} {r : Registration} {value : JsValue} {m : CloudClientManager}
    (hm : s.manager.step (.deliver c r value) = some m) :
    Turns s (.deliver c r value) { s with manager := m, delivered := s.delivered ++ [(r, value)] }
  | emit {d : Delivery} {i : ℕ} {rest : List ℕ} {outcome : Except String Unit} {m : CloudClientManager}
    (hd : s.manager.delivery = some d) (hahead : s.manager.ahead d = i :: rest)
    (hm : s.manager.step (.call outcome) = some m) :
    Turns s (.emit outcome) { s with manager := m, emitted := s.emitted ++ [s.emission i d.value] }
  | manager {e : CloudClientManager.Event} {m : CloudClientManager} (hinner : inner e = true)
    (hm : s.manager.step e = some m) : Turns s (.manager e) (s.withManager m)

theorem turns_of_step {s t : CloudTriggers} {e : Event} (h : machine.step s e = some t) :
    s.Turns e t := by
  change step s e = some t at h
  cases e with
  | trigger node =>
    simp only [step] at h
    split at h
    next message hnode =>
      cases h
      exact .refused hnode
    next thingId variableName hnode =>
      obtain ⟨m, hm, rfl⟩ := Option.map_eq_some_iff.mp h
      exact .trigger hm
  | closeFunction i =>
    obtain ⟨m, hm, rfl⟩ := Option.map_eq_some_iff.mp h
    exact .closeFunction hm
  | deliver c r value =>
    obtain ⟨m, hm, rfl⟩ := Option.map_eq_some_iff.mp h
    exact .deliver hm
  | emit outcome =>
    simp only [step] at h
    split at h
    next => contradiction
    next d hd =>
      split at h
      next => contradiction
      next i rest hahead =>
        obtain ⟨m, hm, rfl⟩ := Option.map_eq_some_iff.mp h
        exact .emit hd hahead hm
  | manager e =>
    simp only [step] at h
    split at h
    next hinner =>
      obtain ⟨m, hm, rfl⟩ := Option.map_eq_some_iff.mp h
      exact .manager hinner hm
    next => contradiction

/-- Seen from the manager, a step is one of its own, with a new handler for each subscription. -/
theorem manager_of_turns {s t : CloudTriggers} {e : Event} (h : s.Turns e t) (hok : Closing s e t) :
    t = s ∨ ∃ x, s.manager.step x = some t.manager ∧ CloudClientManager.Separate s.manager x t.manager := by
  cases h with
  | refused hnode => exact .inl rfl
  | trigger hm => exact .inr ⟨_, hm, rfl⟩
  | closeFunction hm => exact .inr ⟨_, hm, hok⟩
  | deliver hm => exact .inr ⟨_, hm, trivial⟩
  | emit hd hahead hm => exact .inr ⟨_, hm, trivial⟩
  | @manager e m hinner hm =>
    refine .inr ⟨e, hm, ?_⟩
    cases e with
    | subscribe => contradiction
    | tearDown => contradiction
    | _ => trivial

theorem manager_reach {s : CloudTriggers} (h : machine.Reach Closing s) :
    CloudClientManager.machine.Reach CloudClientManager.Separate s.manager := by
  refine h.simulation (·.manager) ?_ ?_
  · rintro s rfl
    rfl
  · intro s e t _ hr hs hok
    rcases manager_of_turns (turns_of_step hs) hok with rfl | ⟨x, hx, hsep⟩
    · exact hr
    · exact hr.step hx hsep

/-! ### What a trigger emits -/

/-- Only a value that comes in starts a walk over the handlers, and only their calls move it on. -/
theorem delivery_of_step {s t : CloudClientManager} {e : CloudClientManager.Event}
    (hs : s.step e = some t) (hdeliver : ∀ c r value, e ≠ .deliver c r value)
    (hcall : ∀ outcome, e ≠ .call outcome) : t.delivery = s.delivery ∨ t.delivery = none := by
  obtain ⟨ht, -⟩ := CloudClientManager.turns_of_step hs
  cases ht with
  | subscribe credentialKey credential thingId variableName handler =>
    exact .inl (CloudClientManager.subscribe_sets s credentialKey credential thingId variableName handler).2
  | join i c hi hc =>
    left
    unfold CloudClientManager.join CloudClientManager.getSet
    dsimp only
    split
    · split
      · rfl
      · rfl
    · split
      · rfl
      · rfl
  | sdkThrew i c set hi =>
    left
    rw [CloudClientManager.sdkThrew_eq, (CloudClientManager.release_sets _ _ _).2,
      (CloudClientManager.deleteHandler_rest _ _ _ _ _).2.2.2.2.2.2.2]
    rfl
  | tearDown i hi => exact .inl (CloudClientManager.tearDown_sets s i).2
  | deliver c r value hr => exact absurd rfl (hdeliver c r value)
  | call d handler rest outcome hd hahead => exact absurd rfl (hcall outcome)
  | delivered d hd hahead => exact .inr rfl
  | connected c hc => exact .inl rfl
  | connectFailed c hc => exact .inl rfl
  | connectSettled i c hi hc => exact .inl rfl
  | connectThrew i c hi hc => exact .inl rfl
  | sdkResolved i c set hi => exact .inl rfl

/-- The emissions of a delivery, by trigger. -/
def emitters (s : CloudTriggers) (n : ℕ) : List ℕ :=
  (s.emitted.filter fun em => em.delivery = n).map (·.trigger)

/-- An emission carries a value that the SDK has delivered, for the property of the trigger. -/
def Genuine (s : CloudTriggers) (em : Emission) : Prop :=
  ∃ r, s.delivered[em.delivery]? = some (r, em.value) ∧
    subKey em.thingId em.variableName = subKey r.thingId r.variableName

structure Inv (s : CloudTriggers) : Prop where
  genuine : ∀ em ∈ s.emitted, s.Genuine em
  current : ∀ d, s.manager.delivery = some d → ∃ r before,
    s.delivered = before ++ [(r, d.value)] ∧ r.callback = d.callback ∧
      r.callback.key = subKey r.thingId r.variableName ∧ s.emitters before.length = d.called

theorem Genuine.lt {s : CloudTriggers} {em : Emission} (h : s.Genuine em) :
    em.delivery < s.delivered.length := by
  obtain ⟨r, hr, -⟩ := h
  exact (List.getElem?_eq_some_iff.mp hr).1

theorem inv_initial : initial.Inv where
  genuine em hem := by simp [initial] at hem
  current d hd := by simp [initial, CloudClientManager.initial] at hd

/-- A step of the manager that no emission comes from. -/
theorem inv_manager {s : CloudTriggers} {m : CloudClientManager} (h : s.Inv)
    (hdelivery : m.delivery = s.manager.delivery ∨ m.delivery = none) : (s.withManager m).Inv where
  genuine := h.genuine
  current d hd := by
    change m.delivery = some d at hd
    rcases hdelivery with hsame | hnone
    · exact h.current d (hsame.symm.trans hd)
    · rw [hnone] at hd
      contradiction

theorem inv_deliver {s : CloudTriggers} (h : s.Inv) (hm : s.manager.Handled) {c : ℕ} {r : Registration}
    {value : JsValue} {m : CloudClientManager} (hs : s.manager.step (.deliver c r value) = some m) :
    Inv { s with manager := m, delivered := s.delivered ++ [(r, value)] } := by
  obtain ⟨ht, hidle⟩ := CloudClientManager.turns_of_step hs
  cases ht with
  | deliver c r value hr =>
    constructor
    · intro em hem
      obtain ⟨r', hr', hkey⟩ := h.genuine em hem
      refine ⟨r', ?_, hkey⟩
      change (s.delivered ++ [(r, value)])[em.delivery]? = _
      rw [List.getElem?_append_left (h.genuine em hem).lt]
      exact hr'
    · intro d hd
      change (s.manager.onValue r.callback value).delivery = some d at hd
      unfold CloudClientManager.onValue at hd
      split at hd
      · rw [hidle rfl] at hd
        contradiction
      · cases hd
        refine ⟨r, s.delivered, rfl, rfl, hm.keyed c r hr, ?_⟩
        -- Nothing has been emitted for the value yet.
        have hnone : (s.emitted.filter fun em => em.delivery = s.delivered.length) = [] := by
          refine List.filter_eq_nil_iff.mpr fun em hem => ?_
          have hlt := (h.genuine em hem).lt
          simp only [decide_eq_true_eq]
          omega
        unfold emitters
        rw [hnone]
        rfl

theorem inv_emit {s : CloudTriggers} (h : s.Inv) (hm : s.manager.Handled) {d : Delivery} {i : ℕ}
    {rest : List ℕ} (hd : s.manager.delivery = some d) (hahead : s.manager.ahead d = i :: rest)
    (outcome : Except String Unit) :
    Inv { s with
      manager := s.manager.call d i outcome
      emitted := s.emitted ++ [s.emission i d.value] } := by
  obtain ⟨r, before, hdelivered, hcb, hkey, hcalled⟩ := h.current d hd
  have hlast : s.delivered.length - 1 = before.length := by
    rw [hdelivered, List.length_append, List.length_singleton, Nat.add_sub_cancel]
  have hcallback := (hm.ahead hd (i := i) (by rw [hahead]; exact List.mem_cons_self)).2
  constructor
  · intro em hem
    rcases List.mem_append.mp hem with hold | hnew
    · exact h.genuine em hold
    · rw [List.mem_singleton.mp hnew]
      refine ⟨r, ?_, ?_⟩
      · change s.delivered[s.delivered.length - 1]? = some (r, d.value)
        rw [hlast, hdelivered, List.getElem?_concat_length]
      · rw [← hkey, hcb, ← hcallback]
        rfl
  · intro d' hd'
    change (s.manager.call d i outcome).delivery = some d' at hd'
    rw [CloudClientManager.call_delivery] at hd'
    cases hd'
    refine ⟨r, before, hdelivered, hcb, hkey, ?_⟩
    have hsame : (s.emission i d.value).delivery = before.length := hlast
    change ((s.emitted ++ [s.emission i d.value]).filter _).map _ = d.called ++ [i]
    rw [List.filter_append, List.map_append, List.filter_singleton]
    simp only [hsame, decide_true]
    rw [← hcalled]
    rfl

theorem inv_reach {s : CloudTriggers} (h : machine.Reach Closing s) : s.Inv := by
  refine h.invariant ?_ ?_
  · rintro s rfl
    exact inv_initial
  · intro s e t hr hi hs hok
    have hm := CloudClientManager.handled_reach (manager_reach hr)
    cases turns_of_step hs with
    | refused hnode => exact hi
    | trigger hm => exact inv_manager hi (delivery_of_step hm (by simp) (by simp))
    | closeFunction hm => exact inv_manager hi (delivery_of_step hm (by simp) (by simp))
    | deliver hstep => exact inv_deliver hi hm hstep
    | @emit d i rest outcome m hd hahead hstep =>
      obtain ⟨ht, -⟩ := CloudClientManager.turns_of_step hstep
      cases ht with
      | call d' handler rest' _ hd' hahead' =>
        obtain rfl : d = d' := Option.some.inj (hd.symm.trans hd')
        obtain rfl : i = handler := (List.cons.inj (hahead.symm.trans hahead')).1
        exact inv_emit hi hm hd hahead outcome
    | @manager e m hinner hstep =>
      refine inv_manager hi (delivery_of_step hstep ?_ ?_)
      · rintro c r value rfl
        contradiction
      · rintro outcome rfl
        contradiction

/-! ### Who is closed stays silent -/

theorem subscribe_subs (s : CloudClientManager) (credentialKey : String) (credential : CloudCredential)
    (thingId variableName : String) (handler : ℕ) :
    (s.subscribe credentialKey credential thingId variableName handler).nextSub = s.nextSub + 1 ∧
      ∀ i < s.nextSub, (s.subscribe credentialKey credential thingId variableName handler).subs i =
        s.subs i := by
  have hgot : (s.getEntry credentialKey).1.nextSub = s.nextSub ∧
      (s.getEntry credentialKey).1.subs = s.subs := by
    unfold CloudClientManager.getEntry
    split
    · exact ⟨rfl, rfl⟩
    · exact ⟨rfl, rfl⟩
  unfold CloudClientManager.subscribe
  generalize s.getEntry credentialKey = got at hgot
  obtain ⟨u, e⟩ := got
  obtain ⟨-, -, hn, hsubs, -⟩ := CloudClientManager.ensureConnected_rest (u.addRef e 1) e credential
  refine ⟨congrArg (· + 1) (hn.trans hgot.1), ?_⟩
  intro i hi
  dsimp only
  rw [CloudClientManager.addSub_subs, if_neg, hsubs]
  · exact congrFun hgot.2 i
  · rw [hn]
    exact Nat.ne_of_lt (hgot.1 ▸ hi)

theorem release_nextSub (s : CloudClientManager) (key : String) (e : ℕ) :
    (s.release key e).nextSub = s.nextSub := by
  unfold CloudClientManager.release
  dsimp only
  split
  · exact (CloudClientManager.teardown_rest _ _ _).2.2.1
  · rfl

/-- A subscription that holds nothing any more stays as it is. -/
theorem subs_of_step {s t : CloudClientManager} {e : CloudClientManager.Event} (hs : s.step e = some t)
    (hok : CloudClientManager.Separate s e t) {i : ℕ} (hi : i < s.nextSub)
    (hout : (s.subs i).phase.holding = false) : t.subs i = s.subs i ∧ i < t.nextSub := by
  obtain ⟨ht, -⟩ := CloudClientManager.turns_of_step hs
  have hother : ∀ {j : ℕ}, (s.subs j).phase.holding = true → i ≠ j := by
    rintro j hj rfl
    rw [hout] at hj
    contradiction
  have hset : ∀ (u : CloudClientManager) {j : ℕ} (phase : Phase), u.subs = s.subs →
      (s.subs j).phase.holding = true → (u.setPhase j phase).subs i = s.subs i := by
    intro u j phase hu hj
    rw [CloudClientManager.setPhase_subs, if_neg (hother hj), hu]
  cases ht with
  | subscribe credentialKey credential thingId variableName handler =>
    obtain ⟨hn, hsubs⟩ := subscribe_subs s credentialKey credential thingId variableName handler
    rw [hn]
    exact ⟨hsubs i hi, Nat.lt_succ_of_lt hi⟩
  | connectSettled j c hj hc => exact ⟨hset _ _ rfl (by rw [hj]; rfl), hi⟩
  | connectThrew j c hj hc => exact ⟨hset _ _ rfl (by rw [hj]; rfl), hi⟩
  | join j c hj hc =>
    have hholding : (s.subs j).phase.holding = true := by
      rw [hj]
      rfl
    obtain ⟨-, -, hsubs, hn, -⟩ := CloudClientManager.getSet_rest s (s.subs j).entry (s.subs j).key
    unfold CloudClientManager.join
    dsimp only
    split
    · exact ⟨hset _ _ hsubs hholding, Nat.lt_of_lt_of_eq hi hn.symm⟩
    · exact ⟨hset _ _ hsubs hholding, Nat.lt_of_lt_of_eq hi hn.symm⟩
  | sdkResolved j c set hj => exact ⟨hset _ _ rfl (by rw [hj]; rfl), hi⟩
  | sdkThrew j c set hj =>
    have hne : i ≠ j := hother (by rw [hj]; rfl)
    obtain ⟨-, -, hsubs, hn, -⟩ := CloudClientManager.deleteHandler_rest
      (s.unmark (s.subs j).entry (s.subs j).key) (s.subs j).entry (s.subs j).key set (s.subs j).handler
    unfold CloudClientManager.sdkThrew
    dsimp only
    rw [CloudClientManager.setPhase_subs, if_neg hne, CloudClientManager.release_subs, hsubs]
    refine ⟨rfl, ?_⟩
    change i < (CloudClientManager.release _ _ _).nextSub
    rw [release_nextSub, hn]
    exact hi
  | tearDown j hj =>
    have hholding : (s.subs j).phase.holding = true := by
      rw [show (s.subs j).phase = .resolved from hok]
      rfl
    rw [CloudClientManager.tearDown_eq]
    split
    next set _ =>
      obtain ⟨-, -, hsubs, hn, -⟩ := CloudClientManager.deleteHandler_rest (s.setPhase j .released)
        (s.subs j).entry (s.subs j).key set (s.subs j).handler
      rw [CloudClientManager.release_subs, release_nextSub, hsubs, hn]
      exact ⟨hset _ _ rfl hholding, hi⟩
    next =>
      rw [CloudClientManager.release_subs, release_nextSub]
      exact ⟨hset _ _ rfl hholding, hi⟩
  | connected c hc => exact ⟨rfl, hi⟩
  | connectFailed c hc => exact ⟨rfl, hi⟩
  | deliver c r value hr =>
    unfold CloudClientManager.onValue
    split
    · exact ⟨rfl, hi⟩
    · exact ⟨rfl, hi⟩
  | call d handler rest outcome hd hahead =>
    obtain ⟨-, -, hsubs, hn, -⟩ := CloudClientManager.call_rest s d handler outcome
    rw [hsubs, hn]
    exact ⟨rfl, hi⟩
  | delivered d hd hahead => exact ⟨rfl, hi⟩

/-- What a trigger has emitted. -/
def emittedBy (s : CloudTriggers) (i : ℕ) : List Emission := s.emitted.filter fun em => em.trigger = i

theorem silent_step {s t : CloudTriggers} {e : Event} (hr : machine.Reach Closing s)
    (hs : machine.step s e = some t) (hok : Closing s e t) {i : ℕ} (hi : i < s.manager.nextSub)
    (hout : (s.manager.subs i).phase.holding = false) :
    i < t.manager.nextSub ∧ (t.manager.subs i).phase.holding = false ∧ t.emittedBy i = s.emittedBy i := by
  have hturns := turns_of_step hs
  have hkept : i < t.manager.nextSub ∧ (t.manager.subs i).phase.holding = false := by
    rcases manager_of_turns hturns hok with rfl | ⟨x, hx, hsep⟩
    · exact ⟨hi, hout⟩
    · obtain ⟨hsubs, hlt⟩ := subs_of_step hx hsep hi hout
      rw [hsubs]
      exact ⟨hlt, hout⟩
  refine ⟨hkept.1, hkept.2, ?_⟩
  cases hturns with
  | @emit d j rest outcome m hd hahead hm =>
    have hin : j ∈ s.manager.ahead d := by
      rw [hahead]
      exact List.mem_cons_self
    have hjoined := ((CloudClientManager.handled_reach (manager_reach hr)).ahead hd hin).1
    have hne : j ≠ i := by
      rintro rfl
      rw [Phase.holding_of_joined hjoined] at hout
      contradiction
    unfold emittedBy
    rw [List.filter_append, List.filter_cons_of_neg (by simp [emission, hne]), List.filter_nil,
      List.append_nil]
  | _ => rfl

/-- Once the `closeFunction` of a trigger has been called, or its `trigger()` has thrown, nothing is
emitted by it any more. -/
theorem silent_run {s t : CloudTriggers} (hs : machine.Reach Closing s)
    (ht : (machine.startingAt s).Reach Closing t) {i : ℕ} (hi : i < s.manager.nextSub)
    (hout : (s.manager.subs i).phase.holding = false) : t.emittedBy i = s.emittedBy i := by
  have hrun : i < t.manager.nextSub ∧ (t.manager.subs i).phase.holding = false ∧
      t.emittedBy i = s.emittedBy i := by
    refine ht.invariant (P := fun t => i < t.manager.nextSub ∧ (t.manager.subs i).phase.holding = false ∧
      t.emittedBy i = s.emittedBy i) ?_ ?_
    · rintro u rfl
      exact ⟨hi, hout, rfl⟩
    · rintro u e v hu ⟨hlt, hclosed, hsame⟩ hstep hok
      obtain ⟨hlt', hclosed', hnew⟩ := silent_step (hs.append hu) hstep hok hlt hclosed
      exact ⟨hlt', hclosed', hnew.trans hsame⟩
  exact hrun.2.2

/-- The text of a key without a further NUL determines the pair. -/
theorem subKey_inj {thingId variableName thingId' variableName' : String}
    (h : subKey thingId variableName = subKey thingId' variableName')
    (hthing : '\x00' ∉ thingId.toList) (hthing' : '\x00' ∉ thingId'.toList) :
    thingId = thingId' ∧ variableName = variableName' := by
  unfold subKey at h
  have hlists := congrArg String.toList h
  simp only [String.toList_append, List.append_assoc] at hlists
  obtain ⟨ht, hv⟩ := Separated.first_inj hthing hthing' hlists
  exact ⟨String.toList_inj.mp ht, String.toList_inj.mp hv⟩

/-- Over every run: a trigger emits only values that the SDK has delivered for its own Thing and
variable, and nothing once its `closeFunction` has been called or its `trigger()` has thrown. -/
theorem triggers_faithful (s : CloudTriggers) (h : machine.Reach Closing s) :
    (∀ em ∈ s.emitted, ∃ r, s.delivered[em.delivery]? = some (r, em.value) ∧
      ('\x00' ∉ em.thingId.toList → '\x00' ∉ r.thingId.toList →
        em.thingId = r.thingId ∧ em.variableName = r.variableName)) ∧
    ∀ i < s.manager.nextSub, (s.manager.subs i).phase.holding = false →
      ∀ t, (machine.startingAt s).Reach Closing t → t.emittedBy i = s.emittedBy i := by
  refine ⟨?_, fun i hi hout t ht => silent_run h ht hi hout⟩
  intro em hem
  obtain ⟨r, hr, hkey⟩ := (inv_reach h).genuine em hem
  exact ⟨r, hr, fun hthing hthing' => subKey_inj hkey hthing hthing'⟩

/-! ### Who is active emits once -/

theorem orderly_reach {s : CloudTriggers} (h : machine.Reach Joining s) :
    CloudClientManager.machine.Reach CloudClientManager.Orderly s.manager := by
  refine h.simulation (·.manager) ?_ ?_
  · rintro s rfl
    rfl
  · intro s e t hr hrun hs hok
    have hm := CloudClientManager.handled_reach (manager_reach (hr.mono fun _ _ _ _ hok => hok.1))
    have hturns := turns_of_step hs
    cases hturns with
    | refused hnode => exact hrun
    | trigger hstep => exact hrun.step hstep trivial
    | @closeFunction i m hstep =>
      have hresolved : (s.manager.subs i).phase = .resolved := hok.1
      refine hrun.step hstep ⟨fun _ => ?_, fun hreleased => ?_⟩
      · intro j hj hne _ _
        rw [hm.own j hj, hm.handler (by rw [hresolved]; rfl)]
        exact hne
      · rw [hresolved] at hreleased
        contradiction
    | deliver hstep => exact hrun.step hstep trivial
    | emit hd hahead hstep => exact hrun.step hstep trivial
    | @manager e m hinner hstep =>
      refine hrun.step hstep ?_
      cases e with
      | resume i => exact of_decide_eq_true hok.2
      | tearDown => contradiction
      | _ => trivial

/-- In every run in which no trigger joins its property while a call of the SDK for it is in flight: an
active trigger has its property at the SDK once, on the client in use, and of each value of it that is
being delivered the trigger has emitted once what it no longer has ahead of it. -/
theorem emits_once {s : CloudTriggers} (h : machine.Reach Joining s) {i : ℕ}
    (hi : (s.manager.subs i).phase = .resolved) :
    s.manager.Receives (s.manager.subs i) ∧
      ∀ d, s.manager.delivery = some d → d.callback = (s.manager.subs i).callback →
        (s.emitters (s.delivered.length - 1)).count i = if i ∈ s.manager.ahead d then 0 else 1 := by
  have hclosing : machine.Reach Closing s := h.mono fun _ _ _ _ hok => hok.1
  have hreceives := CloudClientManager.receives_of_inv (CloudClientManager.inv_reach (orderly_reach h)) hi
  have hhandler := (CloudClientManager.handled_reach (manager_reach hclosing)).handler (i := i)
    (by rw [hi]; rfl)
  refine ⟨hreceives, ?_⟩
  intro d hd hcb
  obtain ⟨r, before, hdelivered, -, -, hcalled⟩ := (inv_reach hclosing).current d hd
  have hlast : s.delivered.length - 1 = before.length := by
    rw [hdelivered, List.length_append, List.length_singleton, Nat.add_sub_cancel]
  have hcount := hreceives.reaches d hd hcb
  rw [hhandler] at hcount
  rw [hlast, hcalled]
  exact hcount

/-- Two triggers share a credential and a property. The `emit` of the first throws, and then the second
has its turn. -/
def sharedNode : ArduinoCloudTrigger := ⟨" thing-1 ", "temp", some "cred-1", ⟨"A", "sa", none⟩⟩

def sharedRun : List Event :=
  [.trigger sharedNode, .manager (.connected 0), .manager (.connectSettled 0), .manager (.resume 0),
    .manager (.sdkResolved 0), .trigger sharedNode, .manager (.resume 1),
    .deliver 0 ⟨"thing-1", "temp", ⟨0, subKey "thing-1" "temp"⟩⟩ .null, .emit (.error "boom"),
    .emit (.ok ())]

def shared : CloudTriggers := machine.after Joining initial sharedRun

theorem shared_emits : shared.emitted.map (·.trigger) = [0, 1] ∧
    (shared.emitters (shared.delivered.length - 1)).count 1 = 1 := by
  have hrun : machine.Reach Joining shared := (Machine.Reach.init rfl).after _
  have hone : (shared.manager.subs 1).phase = .resolved := by decide
  have hwalk : shared.manager.delivery.map (·.callback) = some (shared.manager.subs 1).callback := by decide
  obtain ⟨d, hd, hcb⟩ := Option.map_eq_some_iff.mp hwalk
  have hdone : shared.manager.delivery.map (fun d => decide (1 ∈ shared.manager.ahead d)) = some false := by
    decide
  rw [hd, Option.map_some, Option.some.injEq, decide_eq_false_iff_not] at hdone
  have honce := (emits_once hrun hone).2 d hd hcb
  rw [if_neg hdone] at honce
  exact ⟨by decide, honce⟩

/-- The first trigger is closed when both have emitted, and another value comes. -/
def closed : CloudTriggers := machine.after Closing shared [.closeFunction 0]

def later : CloudTriggers := machine.after Closing closed
  [.manager .delivered, .deliver 0 ⟨"thing-1", "temp", ⟨0, subKey "thing-1" "temp"⟩⟩ (.bool true),
    .emit (.ok ())]

theorem later_silent : later.emitted.map (·.trigger) = [0, 1, 1] ∧
    later.emittedBy 0 = closed.emittedBy 0 := by
  have hrun : machine.Reach Closing closed :=
    (((Machine.Reach.init rfl).after sharedRun).mono fun _ _ _ _ hok => hok.1).after _
  exact ⟨by decide, (triggers_faithful closed hrun).2 0 (by decide) (by decide) later
    (Machine.Reach.since _ _ _ _)⟩

end CloudTriggers

end UnoQ.Cloud
