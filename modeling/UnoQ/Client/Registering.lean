import UnoQ.Client.Answers
import UnoQ.Client.Subscriptions

/-!
# The two ways to register a method

`provide` and `onNotify` keep a table each, and both register the method at the router, which refuses a
name that is taken. `onNotify` looks into the table of `provide` before it asks. `provide` looks into its
own only, so it is refused after an `onNotify` that has registered the name.
-/

namespace UnoQ.Client
open Codec Transition

/-- A bridge, and the names that are taken at the router it is connected to. -/
structure Session where
  bridge : Bridge
  routes : List String

namespace Session
open Bridge

/-- The id and the name of a `$/register`. -/
def registration : JsValue → Option (JsValue × String)
  | .arr [.num (.int 0), msgid, .str "$/register", .arr [.str name]] => some (msgid, name)
  | _ => none

def routeExists : JsValue := .str "route already exists"

/-- The router hands out a name once, even to the same connection. -/
def router (routes : List String) (msgid : JsValue) (name : String) : List String × List JsValue :=
  if name ∈ routes then (routes, [.nat MSG_RESPONSE, msgid, routeExists, .null])
  else (routes ++ [name], [.nat MSG_RESPONSE, msgid, .null, .bool true])

def routed (host : Host) (r : Session) (message : JsValue) : Session :=
  match registration message with
  | none => r
  | some (msgid, name) =>
    let (routes, reply) := router r.routes msgid name
    ⟨r.bridge.handleMessage host reply none, routes⟩

/-- The router takes what was written after the first `n` frames, and the bridge its replies. -/
def exchange (host : Host) (r : Session) (n : ℕ) : Session :=
  ((r.bridge.service.link.sent.drop n).map Frame.message).foldl (routed host) r

/-- An operation that has led from `r` to `b` runs to its end. -/
def finish (host : Host) (r : Session) (b : Bridge) : Session :=
  let t := exchange host ⟨b, r.routes⟩ r.bridge.service.link.sent.length
  ⟨(t.bridge.resumeCall host r.bridge.calls.nextCall).resumeRegistration r.bridge.nextRegistration,
    t.routes⟩

def provide (host : Host) (r : Session) (method : String) (handler : ℕ) : Session :=
  r.finish host (r.bridge.provide host method handler)

def onNotify (host : Host) (r : Session) (method : String) (handler : ℕ) : Session :=
  r.finish host (r.bridge.onNotify host method handler)

def unsubscribe (r : Session) (method : String) (handler : ℕ) : Session :=
  ⟨r.bridge.unsubscribe method handler, r.routes⟩

/-- The promise of an operation that leads from `r` to `t` has resolved. -/
structure Resolved (r t : Session) : Prop where
  ended : t.bridge.registrations r.bridge.nextRegistration = .idle
  accepted : ∀ err, t.bridge.outcome r.bridge.calls.nextCall ≠ some (.failure err)

/-- The same names are taken, and the same handlers serve them. -/
structure Alike (r t : Session) : Prop where
  routes : t.routes = r.routes
  providers : t.bridge.providers = r.bridge.providers
  notifyHandlers : t.bridge.notifyHandlers = r.bridge.notifyHandlers

/-- The unsubscription, if the subscriber calls it. -/
def leaving (unsubscribed : Bool) (r : Session) (method : String) (handler : ℕ) : Session :=
  if unsubscribed then r.unsubscribe method handler else r

section orders

variable (host : Host) (r : Session) (method : String) (h g : ℕ) (unsubscribed : Bool)

def provided : Session := r.provide host method h

def providedFirst : Session :=
  leaving unsubscribed ((r.provided host method h).onNotify host method g) method g

def subscribed : Session := leaving unsubscribed (r.onNotify host method g) method g

def subscribedFirst : Session := (r.subscribed host method g unsubscribed).provide host method h

/-- In both orders `provide` and `onNotify` succeed, and to the same end. -/
structure Commute : Prop where
  provided : Resolved r (r.provided host method h)
  thenSubscribed : Resolved (r.provided host method h)
    ((r.provided host method h).onNotify host method g)
  subscribed : Resolved r (r.onNotify host method g)
  thenProvided : Resolved (r.subscribed host method g unsubscribed)
    (r.subscribedFirst host method h g unsubscribed)
  alike : Alike (r.providedFirst host method h g unsubscribed)
    (r.subscribedFirst host method h g unsubscribed)
  registered : (r.subscribedFirst host method h g unsubscribed).routes.count method = 1
  answers : (r.subscribedFirst host method h g unsubscribed).bridge.provider (.str method) =
    some (method, h)
  notified : g ∈ (r.subscribedFirst host method h g unsubscribed).bridge.subscribers (.str method) ↔
    unsubscribed = false

end orders

end Session

/-! ### A call and its answer -/

namespace Calls

variable {mp : Msgpack} {c : Calls} {method : String} {params : List JsValue} {opts : CallOptions}

theorem outgoing_invoke (opts : CallOptions) (hconn : c.connected = true)
    (henc : (mp.encode (request (nextMsgId c.msgid) method params)).isSome = true) :
    (c.invoke method params opts).outgoing mp c.nextCall =
      some (request (nextMsgId c.msgid) method params) := by
  simp [outgoing, invoke, hconn, henc]

theorem asked (opts : CallOptions) (hconn : c.connected = true)
    (henc : (mp.encode (request (nextMsgId c.msgid) method params)).isSome = true) :
    let d := c.callWithOptions mp method params opts
    (d.calls c.nextCall).pc = .awaiting c.nextAttempt ∧
      (d.attempts c.nextAttempt).settled = none ∧
      d.pending.get (nextMsgId c.msgid) = some c.nextAttempt ∧ d.connected = true ∧
      d.nextCall = c.nextCall + 1 ∧ ∀ x, c.nextCall < x → d.calls x = c.calls x := by
  obtain ⟨bs, hbs⟩ := Option.isSome_iff_exists.mp henc
  have heq : c.callWithOptions mp method params opts = { c.invoke method params opts with
      msgid := nextMsgId c.msgid
      allocated := c.allocated + 1
      pending := c.pending.set (nextMsgId c.msgid) c.nextAttempt }.enter c.nextCall
        ⟨c.nextCall, some (nextMsgId c.msgid), c.allocated + 1,
          some (c.now + setTimeoutDelay
            (max 0 (((c.invoke method params opts).calls c.nextCall).deadline - c.now))), none⟩
        [.wrote c.nextCall c.nextAttempt (nextMsgId c.msgid)] := by
    simp [callWithOptions, attempt, invoke, hconn, encodeRequest, hbs]
  intro d
  have hd : d = _ := heq
  rw [hd]
  refine ⟨by simp [enter, setPc, invoke], by simp [enter, invoke], by simp [enter, setPc, invoke],
    hconn, rfl,
    fun x hx => ?_⟩
  have hne : x ≠ c.nextCall := by omega
  simp [enter, setPc, invoke, hne]

/-- A settlement that the retry loop does not take for a lost connection ends the call. -/
theorem resume_settled {k a : ℕ} {r : Settlement} (hpc : (c.calls k).pc = .awaiting a)
    (hs : (c.attempts a).settled = some r)
    (hr : ∀ err, r = .failure err → err.isConnectionError = false) (mp : Msgpack) :
    c.resume mp k = c.setPc k (.done r) := by
  unfold resume
  simp only [hpc, hs]
  cases r with
  | result v => rfl
  | failure err =>
    unfold caught
    simp only [hr err rfl, true_or, if_true]

/-- A RESPONSE that comes before anything else settles the call with its result, or with its error. -/
theorem answered (opts : CallOptions) (hconn : c.connected = true)
    (henc : (mp.encode (request (nextMsgId c.msgid) method params)).isSome = true) {r : Settlement}
    (hr : ∀ err, r = .failure err → err.isConnectionError = false) :
    let d := (c.callWithOptions mp method params opts).respond (nextMsgId c.msgid) r
    d.retries c.nextCall = false ∧ ((d.resume mp c.nextCall).calls c.nextCall).pc = .done r ∧
      (d.resume mp c.nextCall).connected = true ∧
      (d.resume mp c.nextCall).nextCall = c.nextCall + 1 ∧
      ∀ x, c.nextCall < x → (d.resume mp c.nextCall).calls x = c.calls x := by
  obtain ⟨hpc, hopen, hget, hup, hnext, hother⟩ := asked opts hconn henc
  intro d
  have hd : d = (c.callWithOptions mp method params opts).retire (nextMsgId c.msgid) c.nextAttempt
      (some (nextMsgId c.msgid)) r := by
    simp only [d, respond, hget]
  have hpc' : (d.calls c.nextCall).pc = .awaiting c.nextAttempt := by
    rw [hd]
    exact hpc
  have hs : (d.attempts c.nextAttempt).settled = some r := by
    rw [hd, retire_settled, if_pos rfl, hopen, Option.none_or]
  rw [resume_settled hpc' hs hr mp]
  refine ⟨by simp [retries, hpc'], by simp [setPc], ?_, ?_, fun x hx => ?_⟩
  · rw [hd]
    exact hup
  · rw [hd]
    exact hnext
  · rw [setPc_calls, if_neg (by omega), hd]
    exact hother x hx

end Calls

namespace Session
open Bridge

/-- The bridge is connected, and the `$/register` of the method can be sent. -/
structure Serving (host : Host) (method : String) (s : Bridge) : Prop where
  connected : s.calls.connected = true
  writable : s.service.link.writable.isSome = true
  encodes : ∀ id, (host.mp.encode (request id "$/register" [.str method])).isSome = true

/-- What is not there yet is as it was. -/
structure Unborn (s : Bridge) : Prop where
  calls : ∀ k, s.calls.nextCall ≤ k → s.calls.calls k = .unused
  registrations : ∀ g, s.nextRegistration ≤ g → s.registrations g = .idle

theorem unborn_reach {host : Host} {s : Bridge} (h : (machine host).Reach always s) : Unborn s := by
  have hcarried : ∃ u : Subscriptions, (Subscriptions.machine host).Reach always u ∧ u.bridge = s := by
    induction h with
    | init hs => exact ⟨_, .init rfl, hs.symm⟩
    | step _ hs _ ih =>
      obtain ⟨u, hu, rfl⟩ := ih
      refine ⟨_, hu.step (Option.map_eq_some_iff.mpr ⟨_, hs, rfl⟩) trivial, rfl⟩
  obtain ⟨u, hu, rfl⟩ := hcarried
  exact ⟨(calls_inv h).unused, (Subscriptions.recorded_reach hu).unborn⟩

/-- What the router makes of the `$/register` of a method. -/
def verdict (routes : List String) (method : String) : Settlement :=
  if method ∈ routes then .failure (.remote "route already exists") else .result (.bool true)

/-- The bridge when the answer to its `$/register` has come to the call. -/
structure Answered (s : Bridge) (f : ℕ → Registration) (r : Settlement) (b : Bridge) : Prop where
  providers : b.providers = s.providers
  notifyHandlers : b.notifyHandlers = s.notifyHandlers
  registrations : ∀ g, b.registrations g =
    if g = s.nextRegistration then f s.calls.nextCall else s.registrations g
  nextRegistration : b.nextRegistration = s.nextRegistration + 1
  outcome : b.outcome s.calls.nextCall = some r
  connected : b.calls.connected = true
  nextCall : b.calls.nextCall = s.calls.nextCall + 1
  calls : ∀ x, s.calls.nextCall < x → b.calls.calls x = s.calls.calls x
  writable : b.service.link.writable = s.service.link.writable

theorem handleMessage_reply (host : Host) (s : Bridge) (id : ℕ) (error result : JsValue)
    (herr : (host.toStr error).isSome = true) :
    s.handleMessage host [.nat MSG_RESPONSE, .nat id, error, result] none =
      { s with calls := s.calls.respond id (host.settlement error result) } := by
  have hstr : ¬ (host.toStr error).isNone = true := by simp [Option.isNone_iff_eq_none, Option.isSome_iff_ne_none.mp herr]
  have hmessage : s.handleMessage host [.nat MSG_RESPONSE, .nat id, error, result] none =
      s.handleResponse host (.nat id) error result := rfl
  have hid : pendingId (.nat id) = some id := by simp [pendingId, JsValue.nat]
  rw [hmessage]
  unfold handleResponse
  rw [if_neg fun h => hstr h.2, hid]

theorem routed_register (host : Host) (b : Bridge) (routes : List String) (id : ℕ) (method : String) :
    routed host ⟨b, routes⟩ (request id "$/register" [.str method]) =
      ⟨{ b with calls := b.calls.respond id (verdict routes method) },
        (router routes (.nat id) method).1⟩ := by
  have hreg : registration (request id "$/register" [.str method]) = some (.nat id, method) := rfl
  unfold routed
  rw [hreg]
  dsimp only
  unfold router verdict
  split
  · rw [handleMessage_reply host b id routeExists .null rfl]
    rfl
  · rw [handleMessage_reply host b id .null (.bool true) rfl]
    rfl

theorem exchange_register {host : Host} {method : String} {s : Bridge} (hs : Serving host method s)
    (f : ℕ → Registration) (routes : List String) :
    exchange host ⟨s.register host method f, routes⟩ s.service.link.sent.length =
      routed host ⟨s.register host method f, routes⟩
        (request (nextMsgId s.calls.msgid) "$/register" [.str method]) := by
  obtain ⟨c, hc⟩ := Option.isSome_iff_exists.mp hs.writable
  have hout := Calls.outgoing_invoke ⟨none, none⟩ hs.connected (hs.encodes _)
  have hsent : (s.register host method f).service.link.sent = s.service.link.sent ++
      [⟨c, request (nextMsgId s.calls.msgid) "$/register" [.str method], none⟩] := by
    change (s.service.post ((s.calls.invoke "$/register" [.str method] ⟨none, none⟩).outgoing host.mp
      s.calls.nextCall)).link.sent = _
    rw [hout]
    simp [Service.post, Link.write, hc]
  unfold exchange
  dsimp only
  rw [hsent, List.drop_left]
  rfl

/-- A registration runs until its answer has come to the call. -/
theorem finish_register {host : Host} {method : String} {r : Session} {s : Bridge}
    (hs : Serving host method s) (f : ℕ → Registration) (hcalls : s.calls = r.bridge.calls)
    (hservice : s.service = r.bridge.service) :
    ∃ b, Answered s f (verdict r.routes method) b ∧ r.finish host (s.register host method f) =
      ⟨b.resumeRegistration r.bridge.nextRegistration,
        (router r.routes (.nat (nextMsgId s.calls.msgid)) method).1⟩ := by
  have herr : ∀ err, verdict r.routes method = .failure err → err.isConnectionError = false := by
    intro err h
    unfold verdict at h
    split at h
    · cases h
      rfl
    · contradiction
  obtain ⟨hretries, hpc, hconn, hnext, hother⟩ :=
    Calls.answered ⟨none, none⟩ hs.connected (hs.encodes _) herr
  let answered : Bridge := { s.register host method f with
    calls := (s.register host method f).calls.respond (nextMsgId s.calls.msgid)
      (verdict r.routes method) }
  have hservice' : (answered.resumeCall host s.calls.nextCall).service =
      (s.register host method f).service := by
    unfold resumeCall
    have hno : answered.calls.retries s.calls.nextCall = false := hretries
    rw [hno]
    rfl
  refine ⟨answered.resumeCall host s.calls.nextCall, ?_, ?_⟩
  · refine ⟨rfl, rfl, fun g => Function.update_apply .., rfl, outcome_eq_some.mpr hpc, hconn, hnext,
      hother, ?_⟩
    rw [hservice']
    exact (Service.sends_post s.service _).writable
  · unfold finish
    rw [← hcalls, ← hservice, exchange_register hs f, routed_register]

/-- What both operations need, and leave. -/
structure Ready (host : Host) (method : String) (s : Bridge) : Prop where
  serving : Serving host method s
  unborn : Unborn s

/-- What an operation that registers leaves, if the router gives it the name. -/
structure Registers (host : Host) (method : String) (r t : Session) (providers : InsertMap String ℕ)
    (notifyHandlers : InsertMap String (List ℕ)) : Prop where
  ready : Ready host method t.bridge
  resolved : Resolved r t
  routes : t.routes = r.routes ++ [method]
  providers : t.bridge.providers = providers
  notifyHandlers : t.bridge.notifyHandlers = notifyHandlers

/-- Two bridges that differ in their handler tables only. -/
structure SameCalls (s t : Bridge) : Prop where
  calls : t.calls = s.calls
  service : t.service = s.service
  registrations : t.registrations = s.registrations
  nextRegistration : t.nextRegistration = s.nextRegistration

theorem SameCalls.ready {host : Host} {method : String} {s t : Bridge} (h : SameCalls s t)
    (hs : Ready host method s) : Ready host method t := by
  obtain ⟨hcalls, hservice, hregs, hnext⟩ := h
  obtain ⟨⟨hconn, hwrite, henc⟩, hc, hg⟩ := hs
  refine ⟨⟨?_, ?_, henc⟩, ?_, ?_⟩
  · rw [hcalls]
    exact hconn
  · rw [hservice]
    exact hwrite
  · rw [hcalls]
    exact hc
  · rw [hregs, hnext]
    exact hg

theorem SameCalls.resolved {r t : Session} (h : SameCalls r.bridge t.bridge)
    (hu : Unborn r.bridge) : Resolved r t := by
  refine ⟨?_, fun err herr => ?_⟩
  · rw [h.registrations]
    exact hu.registrations _ (Nat.le_refl _)
  · rw [outcome_eq_some, h.calls, hu.calls _ (Nat.le_refl _)] at herr
    contradiction

section operations

variable {host : Host} {method : String} {r : Session} {s b t : Bridge} {f : ℕ → Registration}
  {h g : ℕ}

theorem Answered.ready {v : Settlement} (hb : Answered s f v b) (hs : Ready host method s) :
    Ready host method (b.registered s.nextRegistration) := by
  refine ⟨⟨hb.connected, ?_, hs.serving.encodes⟩, fun k hk => ?_, fun g hg => ?_⟩
  · change b.service.link.writable.isSome = true
    rw [hb.writable]
    exact hs.serving.writable
  · have hk : b.calls.nextCall ≤ k := hk
    rw [hb.nextCall] at hk
    exact (hb.calls k (by omega)).trans (hs.unborn.calls k (by omega))
  · have hg : b.nextRegistration ≤ g := hg
    rw [hb.nextRegistration] at hg
    have hne : g ≠ s.nextRegistration := by omega
    rw [Subscriptions.registered_registrations, if_neg hne, hb.registrations, if_neg hne]
    exact hs.unborn.registrations g (by omega)

/-- The operation ends with the tables that it writes when its call has been answered. -/
theorem registers_of_finish (hr : Ready host method r.bridge) (hs : SameCalls r.bridge s)
    (hroute : method ∉ r.routes)
    (hdone : ∀ b, Answered s f (.result (.bool true)) b →
      SameCalls (b.registered s.nextRegistration) (b.resumeRegistration s.nextRegistration)) :
    ∃ b, Answered s f (.result (.bool true)) b ∧
      Registers host method r (r.finish host (s.register host method f))
        (b.resumeRegistration s.nextRegistration).providers
        (b.resumeRegistration s.nextRegistration).notifyHandlers := by
  have hready := hs.ready hr
  obtain ⟨b, hb, hfinish⟩ := finish_register hready.serving f hs.calls hs.service
  have hv : verdict r.routes method = .result (.bool true) := if_neg hroute
  rw [hv] at hb
  have hsame := hdone b hb
  have hroutes : ∀ id, (router r.routes id method).1 = r.routes ++ [method] := fun id => by
    rw [router, if_neg hroute]
  refine ⟨b, hb, ?_⟩
  rw [hfinish, hroutes, ← hs.nextRegistration]
  refine ⟨hsame.ready (hb.ready hready), ⟨?_, fun err herr => ?_⟩, rfl, rfl, rfl⟩
  · rw [← hs.nextRegistration, hsame.registrations, Subscriptions.registered_registrations, if_pos rfl]
  · rw [outcome_eq_some, hsame.calls, ← outcome_eq_some, ← hs.calls] at herr
    have hresult := hb.outcome
    change b.outcome s.calls.nextCall = some (.failure err) at herr
    rw [herr] at hresult
    cases Option.some.inj hresult

theorem resume_provide (hb : Answered s (.provide method h) (.result (.bool true)) b) :
    b.resumeRegistration s.nextRegistration =
      { b.registered s.nextRegistration with providers := b.providers.set method h } := by
  have hreg : b.registrations s.nextRegistration = .provide method h s.calls.nextCall := by
    rw [hb.registrations, if_pos rfl]
  unfold resumeRegistration
  simp only [hreg, hb.outcome]

theorem resume_onNotify (hb : Answered s (.onNotify method g) (.result (.bool true)) b) :
    b.resumeRegistration s.nextRegistration =
      (b.registered s.nextRegistration).subscribe method g := by
  have hreg : b.registrations s.nextRegistration = .onNotify method g s.calls.nextCall := by
    rw [hb.registrations, if_pos rfl]
  unfold resumeRegistration
  simp only [hreg, hb.outcome]

theorem provide_fresh (hr : Ready host method r.bridge) (hroute : method ∉ r.routes)
    (hprov : r.bridge.providers.has method = false) (h : ℕ) :
    Registers host method r (r.provide host method h) (r.bridge.providers.set method h)
      r.bridge.notifyHandlers := by
  have hasks : r.bridge.provide host method h = r.bridge.register host method (.provide method h) := by
    simp [Bridge.provide, hprov]
  obtain ⟨b, hb, hregisters⟩ := registers_of_finish (s := r.bridge) (f := .provide method h) hr
    ⟨rfl, rfl, rfl, rfl⟩ hroute fun b hb => by
      rw [resume_provide hb]
      exact ⟨rfl, rfl, rfl, rfl⟩
  rw [resume_provide hb] at hregisters
  unfold provide
  rw [hasks, ← hb.providers, ← hb.notifyHandlers]
  exact hregisters

/-- The name is taken, and the new handler is not put into the table. -/
theorem provide_taken (hr : Ready host method r.bridge) (hroute : method ∈ r.routes)
    (hprov : r.bridge.providers.has method = false) (h : ℕ) :
    ¬ Resolved r (r.provide host method h) := by
  have hasks : r.bridge.provide host method h = r.bridge.register host method (.provide method h) := by
    simp [Bridge.provide, hprov]
  obtain ⟨b, hb, hfinish⟩ :=
    finish_register (r := r) hr.serving (.provide method h) rfl rfl
  have hv : verdict r.routes method = .failure (.remote "route already exists") := if_pos hroute
  rw [hv] at hb
  have hreg : b.registrations r.bridge.nextRegistration = .provide method h r.bridge.calls.nextCall := by
    rw [hb.registrations, if_pos rfl]
  have hdone : b.resumeRegistration r.bridge.nextRegistration =
      b.registered r.bridge.nextRegistration := by
    unfold resumeRegistration
    simp only [hreg, hb.outcome]
  intro hresolved
  refine hresolved.accepted (.remote "route already exists") ?_
  unfold provide
  rw [hasks, hfinish, hdone]
  exact hb.outcome

theorem finish_same (hs : SameCalls r.bridge s) (hu : Unborn r.bridge) :
    r.finish host s = ⟨s, r.routes⟩ := by
  have hu' : (s.calls.calls r.bridge.calls.nextCall).pc = .unused := by
    rw [hs.calls, hu.calls _ (Nat.le_refl _)]
    rfl
  have hexchange : exchange host ⟨s, r.routes⟩ r.bridge.service.link.sent.length = ⟨s, r.routes⟩ := by
    unfold exchange
    rw [hs.service, List.drop_length]
    rfl
  have hcall : s.resumeCall host r.bridge.calls.nextCall = s := by
    have hno : s.calls.retries r.bridge.calls.nextCall = false := by simp [Calls.retries, hu']
    have hsame : s.calls.resume host.mp r.bridge.calls.nextCall = s.calls := by
      unfold Calls.resume
      simp only [hu']
    unfold resumeCall
    rw [hno, hsame]
    rfl
  have hidle : s.registrations r.bridge.nextRegistration = .idle := by
    rw [hs.registrations]
    exact hu.registrations _ (Nat.le_refl _)
  unfold finish
  rw [hexchange]
  dsimp only
  rw [hcall]
  unfold resumeRegistration
  rw [hidle]

theorem onNotify_set (host : Host) (hu : Unborn r.bridge) (hset : r.bridge.notifyHandlers.has method = true) (g : ℕ) :
    r.onNotify host method g = ⟨r.bridge.subscribe method g, r.routes⟩ := by
  obtain ⟨set, hget⟩ := InsertMap.has_eq_true.mp hset
  have hop : r.bridge.onNotify host method g = r.bridge.subscribe method g := by
    simp [Bridge.onNotify, hget]
  unfold onNotify
  rw [hop]
  exact finish_same ⟨rfl, rfl, rfl, rfl⟩ hu

theorem onNotify_fresh (hr : Ready host method r.bridge) (hroute : method ∉ r.routes)
    (hprov : r.bridge.providers.has method = false)
    (hset : r.bridge.notifyHandlers.has method = false) (g : ℕ) :
    Registers host method r (r.onNotify host method g) r.bridge.providers
      ((r.bridge.notifyHandlers.set method []).set method [g]) := by
  let s : Bridge := { r.bridge with notifyHandlers := r.bridge.notifyHandlers.set method [] }
  have hasks : r.bridge.onNotify host method g = s.register host method (.onNotify method g) := by
    simp [Bridge.onNotify, InsertMap.has_eq_false.mp hset, hprov, s]
  obtain ⟨b, hb, hregisters⟩ := registers_of_finish (s := s) (f := .onNotify method g) hr
    ⟨rfl, rfl, rfl, rfl⟩ hroute fun b hb => by
      rw [resume_onNotify hb]
      exact ⟨rfl, rfl, rfl, rfl⟩
  have htable : ((b.registered s.nextRegistration).subscribe method g).notifyHandlers =
      (r.bridge.notifyHandlers.set method []).set method [g] := by
    change b.notifyHandlers.set method _ = _
    have hget : (b.registered s.nextRegistration).notifyHandlers.get method = some [] := by
      change b.notifyHandlers.get method = some []
      rw [hb.notifyHandlers]
      exact InsertMap.get_set_self ..
    rw [hget, hb.notifyHandlers]
    rfl
  rw [resume_onNotify hb, htable] at hregisters
  unfold onNotify
  rw [hasks]
  have hproviders : ((b.registered s.nextRegistration).subscribe method g).providers =
      r.bridge.providers := hb.providers
  rw [hproviders] at hregisters
  exact hregisters

/-! ### Both orders -/

theorem leaving_same (unsubscribed : Bool) (r : Session) (method : String) (g : ℕ) :
    SameCalls r.bridge (leaving unsubscribed r method g).bridge ∧
      (leaving unsubscribed r method g).routes = r.routes ∧
      (leaving unsubscribed r method g).bridge.providers = r.bridge.providers := by
  cases unsubscribed with
  | false => exact ⟨⟨rfl, rfl, rfl, rfl⟩, rfl, rfl⟩
  | true =>
    change SameCalls r.bridge (r.bridge.unsubscribe method g) ∧ r.routes = r.routes ∧
      (r.bridge.unsubscribe method g).providers = r.bridge.providers
    unfold Bridge.unsubscribe
    split <;> exact ⟨⟨rfl, rfl, rfl, rfl⟩, rfl, rfl⟩

theorem leaving_table {r t : Session} (h : t.bridge.notifyHandlers = r.bridge.notifyHandlers)
    (unsubscribed : Bool) (method : String) (g : ℕ) :
    (leaving unsubscribed t method g).bridge.notifyHandlers =
      (leaving unsubscribed r method g).bridge.notifyHandlers := by
  unfold leaving unsubscribe Bridge.unsubscribe
  cases unsubscribed with
  | false => exact h
  | true =>
    simp only [if_true, h]
    split
    · exact h
    · rfl

theorem subscribe_table {s t : Bridge} (h : t.notifyHandlers = s.notifyHandlers) (method : String)
    (g : ℕ) : (t.subscribe method g).notifyHandlers = (s.subscribe method g).notifyHandlers := by
  simp only [subscribe, h]

theorem mem_leaving (unsubscribed : Bool) (s : Bridge) (routes : List String) (method : String) (g : ℕ) :
    g ∈ (leaving unsubscribed ⟨s.subscribe method g, routes⟩ method g).bridge.subscribers (.str method) ↔
      unsubscribed = false := by
  have hget : ∃ set, (s.subscribe method g).notifyHandlers.get method = some set ∧ g ∈ set := by
    unfold subscribe
    refine ⟨_, InsertMap.get_set_self .., ?_⟩
    split
    next hmem => exact hmem
    next => simp
  obtain ⟨set, hset, hmem⟩ := hget
  unfold leaving unsubscribe Bridge.unsubscribe
  cases unsubscribed with
  | false => simp [subscribers, methodName, hset, hmem]
  | true => simp [subscribers, methodName, hset]

/-- With a set there, `onNotify` leaves the registration to `provide`, in either order. -/
theorem commute_of_set (hr : Ready host method r.bridge) (hroute : method ∉ r.routes)
    (hprov : r.bridge.providers.has method = false)
    (hset : r.bridge.notifyHandlers.has method = true) (h g : ℕ) (unsubscribed : Bool) :
    r.Commute host method h g unsubscribed := by
  have hfirst : Registers host method r (r.provided host method h) (r.bridge.providers.set method h)
      r.bridge.notifyHandlers := provide_fresh hr hroute hprov h
  have hset' : (r.provided host method h).bridge.notifyHandlers.has method = true := by
    rw [hfirst.notifyHandlers]
    exact hset
  have hthen := onNotify_set host hfirst.ready.unborn hset' g
  have honly := onNotify_set host hr.unborn hset g
  have hsub : SameCalls r.bridge (r.bridge.subscribe method g) := ⟨rfl, rfl, rfl, rfl⟩
  have heq : r.subscribed host method g unsubscribed =
      leaving unsubscribed ⟨r.bridge.subscribe method g, r.routes⟩ method g := by
    unfold subscribed
    rw [honly]
  obtain ⟨hsame, hroutes, hproviders⟩ :=
    leaving_same unsubscribed ⟨r.bridge.subscribe method g, r.routes⟩ method g
  rw [← heq] at hsame hroutes hproviders
  have hroutes : (r.subscribed host method g unsubscribed).routes = r.routes := hroutes
  have hproviders : (r.subscribed host method g unsubscribed).bridge.providers =
      r.bridge.providers := hproviders
  have hlast : Registers host method (r.subscribed host method g unsubscribed)
      (r.subscribedFirst host method h g unsubscribed)
      ((r.subscribed host method g unsubscribed).bridge.providers.set method h)
      (r.subscribed host method g unsubscribed).bridge.notifyHandlers :=
    provide_fresh (hsame.ready (hsub.ready hr)) (hroutes ▸ hroute) (hproviders ▸ hprov) h
  have hothers := leaving_same unsubscribed
    ⟨(r.provided host method h).bridge.subscribe method g, (r.provided host method h).routes⟩ method g
  constructor
  · exact hfirst.resolved
  · rw [hthen]
    exact SameCalls.resolved ⟨rfl, rfl, rfl, rfl⟩ hfirst.ready.unborn
  · rw [honly]
    exact SameCalls.resolved hsub hr.unborn
  · exact hlast.resolved
  · unfold providedFirst
    rw [hthen]
    constructor
    · rw [hlast.routes, hroutes, hothers.2.1, hfirst.routes]
    · rw [hlast.providers, hproviders, hothers.2.2]
      exact hfirst.providers.symm
    · rw [hlast.notifyHandlers, heq]
      exact leaving_table (subscribe_table hfirst.notifyHandlers.symm method g) ..
  · rw [hlast.routes, hroutes, List.count_append, List.count_eq_zero_of_not_mem hroute]
    simp
  · unfold provider
    rw [hlast.providers]
    simp [methodName]
  · unfold subscribers
    rw [hlast.notifyHandlers, heq]
    exact mem_leaving unsubscribed r.bridge r.routes method g

/-- Both orders come to the same end if and only if the method has a set of subscribers already, which
only an `onNotify` leaves whose registration has failed. -/
theorem commute_iff (host : Host) (r : Session) (hreach : (machine host).Reach always r.bridge)
    (method : String) (hs : Serving host method r.bridge) (hroute : method ∉ r.routes)
    (hprov : r.bridge.providers.has method = false) (h g : ℕ) (unsubscribed : Bool) :
    r.Commute host method h g unsubscribed ↔ r.bridge.notifyHandlers.has method = true := by
  have hr : Ready host method r.bridge := ⟨hs, unborn_reach hreach⟩
  constructor
  · intro hcommute
    by_contra hset
    have hfresh := onNotify_fresh hr hroute hprov (Bool.not_eq_true _ ▸ hset) g
    obtain ⟨hsame, hroutes, hproviders⟩ :=
      leaving_same unsubscribed (r.onNotify host method g) method g
    have htaken : method ∈ (r.subscribed host method g unsubscribed).routes := by
      unfold subscribed
      rw [hroutes, hfresh.routes]
      simp
    have hnone : (r.subscribed host method g unsubscribed).bridge.providers.has method = false := by
      unfold subscribed
      rw [hproviders, hfresh.providers]
      exact hprov
    exact provide_taken (hsame.ready hfresh.ready) htaken hnone h hcommute.thenProvided
  · exact fun hset => commute_of_set hr hroute hprov hset h g unsubscribed

end operations

theorem serving_reference {method : String} {s : Bridge} (hconn : s.calls.connected = true)
    (hwrite : s.service.link.writable.isSome = true) : Serving referenceHost method s :=
  ⟨hconn, hwrite, fun _ => rfl⟩

/-- The router has turned down a first `onNotify`, and the name is free again since. -/
def turnedDown : List Event :=
  [.onNotify "button" 7, .data 0 [0x94, 1, 1, 0xa2, 110, 111, 0xc0], .dispatch none, .resumeCall 0,
    .resumeRegistration 0]

def turnedDownState : Bridge := (machine referenceHost).after always Bridge.initial turnedDown

theorem turnedDown_commute :
    (⟨turnedDownState, []⟩ : Session).Commute referenceHost "button" 8 9 true := by
  have hreach : (machine referenceHost).Reach always turnedDownState :=
    (Machine.Reach.init rfl).after turnedDown
  have hserving : Serving referenceHost "button" turnedDownState :=
    serving_reference (by decide +kernel) (by decide +kernel)
  have hprov : turnedDownState.providers.has "button" = false := by decide +kernel
  have hset : turnedDownState.notifyHandlers.has "button" = true := by decide +kernel
  exact (commute_iff referenceHost ⟨turnedDownState, []⟩ hreach "button" hserving (by simp) hprov 8 9
    true).mpr hset

/-- On a new bridge, `provide` is refused the name that `onNotify` has registered. -/
theorem onNotify_first_refused : ¬ ∀ (host : Host) (r : Session), (machine host).Reach always r.bridge →
    ∀ method, Serving host method r.bridge → method ∉ r.routes →
      r.bridge.providers.has method = false → ∀ h g unsubscribed,
        r.Commute host method h g unsubscribed := by
  intro hall
  have hcommute := hall referenceHost ⟨Bridge.initial, []⟩ (.init rfl) "button"
    (serving_reference rfl rfl) (by simp) rfl 8 9 false
  exact hcommute.thenProvided.accepted (.remote "route already exists") rfl

end Session
end UnoQ.Client
