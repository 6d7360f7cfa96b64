import Mathlib.Data.Nat.Pairing
import UnoQ.Client.Answers
import UnoQ.Nodes.Deferred

/-!
# From a Respond node to the wire

Bridges, the handlers that Trigger nodes provide to them, and Respond nodes, side by side. A Respond
node settles a promise and puts out `responded: true` at once. Only afterwards does the continuation
of the handler look for the entry of its request in the in-flight table of its bridge, and it writes
its RESPONSE to whatever connection the bridge has by then, if any.
-/

namespace UnoQ.Nodes
open Codec Transition Client

/-- What `handler` in `handleMessage` comes to. -/
def Settlement.outcome : Settlement → Outcome
  | .resolved value => .returned value
  | .rejected message => .thrown (some (.str message))

/-- For each request of a Trigger node `task` has its bridge and the invocation of its handler there.
The requests for which `responded: true` was put out are in `responded`, with the value. -/
structure Exchange where
  bridges : ℕ → Service
  requests : Requests
  task : ℕ → ℕ × ℕ
  responded : List (ℕ × JsValue)

namespace Requests

/-- The node fails, or settles the request that it finds under the msgid and says so. -/
theorem respond_result (js : Platform) {s : Requests} (h : s.Inv) (p : RespondParameters)
    (item : Item) :
    ((∃ message, (s.respond js p item).1 = .error message) ∧
      (s.respond js p item).2.next = s.next ∧
      ∀ r, ((s.respond js p item).2.request r).settlements = (s.request r).settlements) ∨
    ∃ msgid r x, (s.respond js p item).1 = .ok (.settled msgid x) ∧
      s.pending.entries.get msgid = some r ∧
      (s.respond js p item).2 = s.finish r .cleared [x] ⟨s.pending.entries.delete msgid⟩ := by
  rcases respond_cases js h p item with ⟨hsame, hnone⟩ | ⟨call, r, xs, hread, hget, heq, hxs⟩
  · refine .inl ⟨?_, by rw [hsame], fun r => by rw [hsame]⟩
    unfold respond PendingRequests.take
    cases hread : readItem js p item with
    | error message => exact ⟨message, rfl⟩
    | ok call =>
      dsimp only
      rw [hnone call hread]
      exact ⟨_, rfl⟩
  · rcases hxs with ⟨message, hmake, rfl⟩ | ⟨x, hmake, rfl⟩
    · refine .inl ⟨⟨message, ?_⟩, by rw [heq]; rfl, fun y => ?_⟩
      · unfold respond PendingRequests.take
        simp only [hread, hget, hmake]
      · rw [heq, finish_request]
        split
        next hy => rw [hy, List.append_nil]
        next => rfl
    · refine .inr ⟨call.msgid, r, x, ?_, hget, heq⟩
      unfold respond PendingRequests.take
      simp only [hread, hget, hmake]

end Requests

namespace Exchange

def initial : Exchange := ⟨fun _ => .initial, .initial, fun _ => (0, 0), []⟩

/-- The bridge on which the request has arrived. -/
def bridge (s : Exchange) (r : ℕ) : Service := s.bridges (s.task r).1

/-- The invocation of the handler for the request. -/
def invocation (s : Exchange) (r : ℕ) : Task := (s.bridge r).tasks (s.task r).2

section Steps

variable (mp : Msgpack) (options : ℕ → ReconnectOptions) (js : Platform)

def onBridge (s : Exchange) (b : ℕ) (e : Service.Event) : Exchange :=
  { s with bridges := Function.update s.bridges b ((s.bridges b).apply mp (options b) e) }

/-- A REQUEST for the method of a Trigger node, whose handler is called at once. -/
def request (s : Exchange) (b c msgid : ℕ) (trigger : DeferredTrigger) (params : JsValue)
    (handler : ℕ) : Exchange :=
  { s.onBridge mp options b (.receive c (.nat msgid) trigger.method params handler) with
    requests := s.requests.handle trigger (Nat.pair b c) msgid params
    task := Function.update s.task s.requests.next (b, (s.bridges b).nextTask) }

/-- Which request has got which value, where the output of the node is `responded: true`. -/
def respondedTrue (s : Exchange) : Except String RespondOutput → List (ℕ × JsValue)
  | .ok (.settled msgid (.resolved value)) =>
    (s.requests.pending.entries.get msgid).toList.map fun r => (r, value)
  | _ => []

/-- One turn of the loop of `UnoQRespond.execute`. -/
def respond (s : Exchange) (p : RespondParameters) (item : Item) : Exchange :=
  let (output, requests) := s.requests.respond js p item
  { s with requests := requests, responded := s.responded ++ s.respondedTrue output }

/-- The handler for the request goes on, as its promise has been settled. -/
def resume (s : Exchange) (r : ℕ) : Exchange :=
  match (s.requests.request r).settlements.head? with
  | some x => s.onBridge mp options (s.task r).1 (.settle (s.task r).2 x.outcome)
  | none => s

end Steps

/-- In `bridge` anything happens to a bridge, but to the handlers of Trigger nodes. -/
inductive Event
  | bridge (b : ℕ) (e : Service.Event)
  | request (b c msgid : ℕ) (trigger : DeferredTrigger) (params : JsValue) (handler : ℕ)
  | respond (p : RespondParameters) (item : Item)
  | timeout (r : ℕ)
  | tick (ms : ℕ)
  | resume (r : ℕ)

/-- The event is not about the handler of a Trigger node. -/
def foreign (s : Exchange) (b : ℕ) : Service.Event → Bool
  | .settle t _ => (List.range s.requests.next).all fun r => decide (s.task r ≠ (b, t))
  | _ => true

def enabled (s : Exchange) : Event → Bool
  | .bridge b e => (s.bridges b).enabled e && s.foreign b e
  | .request b c _ _ _ _ => (s.bridges b).reads c
  | .timeout r => s.requests.enabled (.timeout r)
  | .resume r =>
    decide (r < s.requests.next) && !(s.requests.request r).settlements.isEmpty &&
      (s.invocation r).outcome.isNone
  | _ => true

def apply (mp : Msgpack) (options : ℕ → ReconnectOptions) (js : Platform) (s : Exchange) :
    Event → Exchange
  | .bridge b e => s.onBridge mp options b e
  | .request b c msgid trigger params handler => s.request mp options b c msgid trigger params handler
  | .respond p item => s.respond js p item
  | .timeout r => { s with requests := s.requests.timedOut r }
  | .tick ms => { s with requests := { s.requests with now := s.requests.now + ms } }
  | .resume r => s.resume mp options r

def machine (mp : Msgpack) (options : ℕ → ReconnectOptions) (js : Platform) :
    Machine Exchange Event :=
  .ofEnabled (· = initial) (fun s e => s.enabled e = true) (apply mp options js)

/-- For every `responded: true` the value has been written to the connection of its REQUEST, once the
handler has gone on. -/
def Delivered (s : Exchange) : Prop :=
  ∀ r value, (r, value) ∈ s.responded → (s.invocation r).outcome ≠ none →
    (s.bridge r).Answers (s.task r).2 value

/-- If the promise of the request was resolved, its handler can answer with the value. -/
def Timely (mp : Msgpack) (s : Exchange) (r : ℕ) : Prop :=
  match (s.requests.request r).settlements.head? with
  | some (.resolved value) => (s.bridge r).CanAnswer mp (s.task r).2 value
  | _ => True

instance (mp : Msgpack) (s : Exchange) (r : ℕ) : Decidable (s.Timely mp r) := by
  unfold Timely
  cases (s.requests.request r).settlements.head? with
  | none => exact isTrue trivial
  | some x => cases x <;> dsimp only <;> infer_instance

/-- A handler goes on while it can answer. -/
def InTime (mp : Msgpack) : Guard Exchange Event := fun s e _ =>
  match e with
  | .resume r => s.Timely mp r
  | _ => True

instance (mp : Msgpack) (s : Exchange) : ∀ e t, Decidable (InTime mp s e t) := by
  rintro (_ | _) t <;> dsimp only [InTime] <;> infer_instance

/-! ### The invariant -/

/-- A request has an invocation of its own, which has not ended before its promise is settled. A
promise is resolved by Respond nodes only. -/
structure Inv (s : Exchange) : Prop where
  requests : s.requests.Inv
  born : ∀ r < s.requests.next, (s.task r).2 < (s.bridge r).nextTask
  own : ∀ r < s.requests.next, ∀ x < s.requests.next, s.task r = s.task x → r = x
  waits : ∀ r < s.requests.next, (s.requests.request r).settlements = [] →
    (s.invocation r).outcome = none
  resolved : ∀ r value, (r, value) ∈ s.responded ↔
    r < s.requests.next ∧ (s.requests.request r).settlements = [.resolved value]
  authored : ∀ b, (s.bridges b).Authored

theorem inv_initial : initial.Inv where
  requests := Requests.inv_initial
  born _ h := absurd h (Nat.not_lt_zero _)
  own _ h := absurd h (Nat.not_lt_zero _)
  waits _ h := absurd h (Nat.not_lt_zero _)
  resolved r value := by
    constructor
    · exact nofun
    · exact fun h => absurd h.1 (Nat.not_lt_zero _)
  authored _ := Service.authored_initial

/-! ### Bridges -/

section OnBridge

variable {mp : Msgpack} {options : ℕ → ReconnectOptions} {s : Exchange} {b : ℕ} {e : Service.Event}

theorem onBridge_self : (s.onBridge mp options b e).bridges b =
    (s.bridges b).apply mp (options b) e := Function.update_self ..

theorem onBridge_other {d : ℕ} (hd : d ≠ b) :
    (s.onBridge mp options b e).bridges d = s.bridges d := Function.update_of_ne hd _ _

theorem sent_onBridge (d : ℕ) :
    (s.bridges d).link.sent <+: ((s.onBridge mp options b e).bridges d).link.sent := by
  by_cases hd : d = b
  · subst hd
    rw [onBridge_self]
    exact Service.sent_apply mp (options d) (s.bridges d) e
  · rw [onBridge_other hd]

theorem task_onBridge {d t : ℕ} (ht : t < (s.bridges d).nextTask) :
    t < ((s.onBridge mp options b e).bridges d).nextTask ∧
      (((s.onBridge mp options b e).bridges d).tasks t = (s.bridges d).tasks t ∨
        ∃ o, d = b ∧ e = .settle t o ∧ ((s.onBridge mp options b e).bridges d).tasks t =
          { (s.bridges d).tasks t with outcome := some o }) := by
  by_cases hd : d = b
  · subst hd
    rw [onBridge_self]
    obtain ⟨hlt, htask⟩ := Service.task_apply mp (options d) e ht
    refine ⟨hlt, htask.imp id ?_⟩
    rintro ⟨o, he, hnew⟩
    exact ⟨o, rfl, he, hnew⟩
  · rw [onBridge_other hd]
    exact ⟨ht, .inl rfl⟩

theorem authored_onBridge (h : ∀ d, (s.bridges d).Authored) (he : (s.bridges b).enabled e = true)
    (d : ℕ) : ((s.onBridge mp options b e).bridges d).Authored := by
  by_cases hd : d = b
  · subst hd
    rw [onBridge_self]
    exact Service.authored_apply (h d) he
  · rw [onBridge_other hd]
    exact h d

theorem answers_onBridge {d t : ℕ} {value : JsValue} (ht : t < (s.bridges d).nextTask)
    (h : (s.bridges d).Answers t value) :
    ((s.onBridge mp options b e).bridges d).Answers t value := by
  rcases (@task_onBridge mp options s b e d t ht).2 with hsame | ⟨o, -, -, hnew⟩
  · exact h.mono (sent_onBridge d) (by rw [hsame]) (by rw [hsame]) (by rw [hsame])
  · exact h.mono (sent_onBridge d) (by rw [hnew]) (by rw [hnew]) (by rw [hnew])

theorem answers_of_onBridge {d t : ℕ} {value : JsValue} (ht : t < (s.bridges d).nextTask)
    (hother : ∀ o, d = b → e ≠ .settle t o)
    (h : ((s.onBridge mp options b e).bridges d).Answers t value) :
    (s.bridges d).Answers t value := by
  have hsame : ((s.onBridge mp options b e).bridges d).tasks t = (s.bridges d).tasks t := by
    rcases (@task_onBridge mp options s b e d t ht).2 with hsame | ⟨o, hd, he, -⟩
    · exact hsame
    · exact absurd he (hother o hd)
  obtain ⟨f, hf, hr⟩ := h
  rw [hsame] at hr
  refine ⟨f, ?_, hr⟩
  by_cases hd : d = b
  · subst hd
    rw [onBridge_self] at hf
    rcases Service.handler_frame hf hr.2.2 with hold | ⟨o, he, -⟩
    · exact hold
    · exact absurd he (hother o rfl)
  · rw [onBridge_other hd] at hf
    exact hf

end OnBridge

theorem foreign_settle {s : Exchange} {b : ℕ} {e : Service.Event} (h : s.foreign b e = true) {r : ℕ}
    (hr : r < s.requests.next) (o : Outcome) (hb : (s.task r).1 = b) : e ≠ .settle (s.task r).2 o := by
  rintro rfl
  have hne := List.all_eq_true.mp h r (List.mem_range.mpr hr)
  exact of_decide_eq_true hne (Prod.ext hb rfl)

/-- Something happens to a bridge, and the handler of a Trigger node ends only when its promise is
settled. -/
theorem inv_onBridge {mp : Msgpack} {options : ℕ → ReconnectOptions} {s : Exchange} (h : s.Inv)
    {b : ℕ} {e : Service.Event} (he : (s.bridges b).enabled e = true)
    (hends : ∀ r < s.requests.next, ∀ o, (s.task r).1 = b → e = .settle (s.task r).2 o →
      (s.requests.request r).settlements ≠ []) : (s.onBridge mp options b e).Inv where
  requests := h.requests
  born r hr := (task_onBridge (h.born r hr)).1
  own := h.own
  waits r hr hopen := by
    rcases (@task_onBridge mp options s b e _ _ (h.born r hr)).2 with hsame | ⟨o, hb, hsettle, -⟩
    · exact (congrArg Task.outcome hsame).trans (h.waits r hr hopen)
    · exact absurd hopen (hends r hr o hb hsettle)
  resolved := h.resolved
  authored := authored_onBridge h.authored he

/-! ### Requests -/

section Request

variable {mp : Msgpack} {options : ℕ → ReconnectOptions} {s : Exchange} {b c msgid : ℕ}
  {trigger : DeferredTrigger} {params : JsValue} {handler : ℕ}

theorem request_task {r : ℕ} (hr : r ≠ s.requests.next) :
    (s.request mp options b c msgid trigger params handler).task r = s.task r :=
  Function.update_of_ne hr _ _

theorem request_task_new :
    (s.request mp options b c msgid trigger params handler).task s.requests.next =
      (b, (s.bridges b).nextTask) := Function.update_self ..

theorem request_settlements (r : ℕ) :
    ((s.request mp options b c msgid trigger params handler).requests.request r).settlements =
      if r = s.requests.next then [] else (s.requests.request r).settlements := by
  have hrequest := s.requests.handle_request trigger (Nat.pair b c) msgid params r
  refine (congrArg Request.settlements hrequest).trans ?_
  split
  · rfl
  · rfl

theorem inv_request (h : s.Inv) (hreads : (s.bridges b).reads c = true) :
    (s.request mp options b c msgid trigger params handler).Inv := by
  have hbridge : (s.onBridge mp options b
      (.receive c (.nat msgid) trigger.method params handler)).Inv :=
    inv_onBridge h hreads nofun
  have hold : ∀ {r}, r < s.requests.next + 1 → r ≠ s.requests.next → r < s.requests.next :=
    fun hlt hne => by omega
  constructor
  case requests => exact Requests.inv_handle h.requests trigger _ msgid params
  case born =>
    intro r hr
    unfold bridge
    by_cases hnew : r = s.requests.next
    · subst hnew
      rw [request_task_new]
      show _ < ((s.onBridge mp options b _).bridges b).nextTask
      rw [onBridge_self]
      exact Nat.lt_succ_self _
    · rw [request_task hnew]
      exact hbridge.born r (hold hr hnew)
  case own =>
    have hfresh : ∀ x < s.requests.next, s.task x ≠ (b, (s.bridges b).nextTask) := by
      intro x hx heq
      have hlt := h.born x hx
      unfold bridge at hlt
      rw [heq] at hlt
      exact Nat.lt_irrefl _ hlt
    intro r hr x hx heq
    by_cases hnew : r = s.requests.next
    · by_cases hxnew : x = s.requests.next
      · rw [hnew, hxnew]
      · rw [hnew, request_task_new, request_task hxnew] at heq
        exact absurd heq.symm (hfresh x (hold hx hxnew))
    · by_cases hxnew : x = s.requests.next
      · rw [hxnew, request_task_new, request_task hnew] at heq
        exact absurd heq (hfresh r (hold hr hnew))
      · rw [request_task hnew, request_task hxnew] at heq
        exact h.own r (hold hr hnew) x (hold hx hxnew) heq
  case waits =>
    intro r hr hopen
    unfold invocation bridge
    by_cases hnew : r = s.requests.next
    · subst hnew
      rw [request_task_new]
      show (((s.onBridge mp options b _).bridges b).tasks _).outcome = none
      rw [onBridge_self]
      have htask := (s.bridges b).receive_tasks c (.nat msgid) trigger.method params handler
        (s.bridges b).nextTask
      rw [if_pos rfl] at htask
      exact congrArg Task.outcome htask
    · rw [request_settlements, if_neg hnew] at hopen
      rw [request_task hnew]
      exact hbridge.waits r (hold hr hnew) hopen
  case resolved =>
    intro r value
    rw [request_settlements]
    by_cases hnew : r = s.requests.next
    · rw [if_pos hnew]
      constructor
      · intro hmem
        have hlt := ((h.resolved r value).mp hmem).1
        omega
      · rintro ⟨-, hnil⟩
        contradiction
    · rw [if_neg hnew]
      refine (h.resolved r value).trans ?_
      constructor
      · exact fun hr => ⟨Nat.lt_succ_of_lt hr.1, hr.2⟩
      · exact fun hr => ⟨hold hr.1 hnew, hr.2⟩
  case authored => exact hbridge.authored

end Request

/-! ### Respond nodes and timers -/

/-- What happens to promises while nothing happens to a bridge: an open one is settled, or stays as
it is. -/
structure Turns (s : Exchange) (requests : Requests) (responded : List (ℕ × JsValue)) : Prop where
  inv : requests.Inv
  next : requests.next = s.requests.next
  settles : ∀ r, ((requests.request r).settlements = (s.requests.request r).settlements ∧
      ∀ value, (r, value) ∈ responded ↔ (r, value) ∈ s.responded) ∨
    (r < s.requests.next ∧ (s.requests.request r).settlements = [] ∧
      ∀ value, (r, value) ∈ responded ↔ (requests.request r).settlements = [.resolved value])

theorem inv_turns {s : Exchange} (h : s.Inv) {requests : Requests} {responded : List (ℕ × JsValue)}
    (ht : s.Turns requests responded) :
    Inv { s with requests := requests, responded := responded } where
  requests := ht.inv
  born r hr := h.born r (ht.next ▸ hr)
  own r hr x hx := h.own r (ht.next ▸ hr) x (ht.next ▸ hx)
  waits r hr hopen := by
    have hlt : r < s.requests.next := ht.next ▸ hr
    rcases ht.settles r with ⟨hsame, -⟩ | ⟨-, hold, -⟩
    · exact h.waits r hlt (hsame.symm.trans hopen)
    · exact h.waits r hlt hold
  resolved r value := by
    show (r, value) ∈ responded ↔ r < requests.next ∧ _
    rw [ht.next]
    rcases ht.settles r with ⟨hsame, hmem⟩ | ⟨hr, -, hmem⟩
    · rw [hmem, hsame]
      exact h.resolved r value
    · rw [hmem]
      exact (and_iff_right hr).symm
  authored := h.authored

theorem turns_respond {js : Platform} {s : Exchange} (h : s.Inv) (p : RespondParameters)
    (item : Item) : s.Turns (s.respond js p item).requests (s.respond js p item).responded := by
  have hinv : (s.requests.respond js p item).2.Inv := Requests.inv_respond h.requests p item
  rcases Requests.respond_result js h.requests p item with
    ⟨⟨message, hout⟩, hnext, hsettlements⟩ | ⟨msgid, x, settlement, hout, hget, heq⟩
  · refine ⟨hinv, hnext, fun r => .inl ⟨hsettlements r, fun value => ?_⟩⟩
    show (r, value) ∈ s.responded ++ s.respondedTrue (s.requests.respond js p item).1 ↔ _
    rw [hout]
    show (r, value) ∈ s.responded ++ [] ↔ _
    rw [List.append_nil]
  · obtain ⟨hx, -, harmed⟩ := h.requests.own _ _ hget
    have hopen : (s.requests.request x).settlements = [] := h.requests.armed x harmed
    have hmem : ∀ r value, (r, value) ∈ (s.respond js p item).responded ↔
        (r, value) ∈ s.responded ∨ (r = x ∧ settlement = .resolved value) := by
      intro r value
      show (r, value) ∈ s.responded ++ s.respondedTrue (s.requests.respond js p item).1 ↔ _
      rw [hout, List.mem_append]
      cases settlement with
      | resolved v =>
        have hnew : s.respondedTrue (.ok (.settled msgid (.resolved v))) = [(x, v)] := by
          simp only [respondedTrue, hget, Option.toList_some, List.map_singleton]
        rw [hnew]
        simp [eq_comm]
      | rejected message => simp [respondedTrue]
    refine ⟨hinv, ?_, fun r => ?_⟩
    · show (s.requests.respond js p item).2.next = s.requests.next
      rw [heq]
      rfl
    · show (((s.requests.respond js p item).2.request r).settlements = _ ∧ _) ∨ _ ∧ _ ∧
        ∀ value, _ ↔ ((s.requests.respond js p item).2.request r).settlements = _
      rw [heq, Requests.finish_request]
      by_cases hrx : r = x
      · subst hrx
        refine .inr ⟨hx, hopen, fun value => ?_⟩
        have hnot : (r, value) ∉ s.responded := by
          intro hold
          have hsettled := ((h.resolved r value).mp hold).2
          rw [hopen] at hsettled
          contradiction
        rw [hmem, if_pos rfl, hopen]
        simp [hnot]
      · refine .inl ⟨?_, fun value => ?_⟩
        · rw [if_neg hrx]
        · rw [hmem]
          simp [hrx]

theorem turns_timeout {s : Exchange} (h : s.Inv) {x : ℕ}
    (he : s.requests.enabled (.timeout x) = true) :
    s.Turns (s.requests.timedOut x) s.responded := by
  obtain ⟨hx, harmed⟩ := Requests.enabled_timeout he
  have hopen : (s.requests.request x).settlements = [] := h.requests.armed x harmed
  have hinv : (s.requests.timedOut x).Inv := Requests.inv_timedOut h.requests harmed
  have hnot : ∀ value, (x, value) ∉ s.responded := by
    intro value hmem
    have hsettled := ((h.resolved x value).mp hmem).2
    rw [hopen] at hsettled
    contradiction
  rcases Requests.timedOut_cases s.requests x with ⟨-, heq⟩ | ⟨y, -, heq⟩
  · refine ⟨hinv, by rw [heq]; rfl, fun r => .inl ⟨?_, fun value => Iff.rfl⟩⟩
    rw [heq, Requests.finish_request]
    split
    next hr => rw [hr, List.append_nil]
    next => rfl
  · refine ⟨hinv, by rw [heq]; rfl, fun r => ?_⟩
    rw [heq, Requests.finish_request]
    by_cases hrx : r = x
    · subst hrx
      refine .inr ⟨hx, hopen, fun value => ?_⟩
      rw [if_pos rfl, hopen]
      simp [hnot value]
    · refine .inl ⟨?_, fun value => Iff.rfl⟩
      rw [if_neg hrx]

/-! ### Runs -/

section Runs

variable {mp : Msgpack} {options : ℕ → ReconnectOptions} {js : Platform} {s t : Exchange} {e : Event}

/-- Something happens to a bridge, a REQUEST comes in, promises are settled, or a handler goes on. -/
theorem step_cases (h : s.Inv) (hstep : (machine mp options js).step s e = some t) :
    (∃ b e', e = .bridge b e' ∧ (s.bridges b).enabled e' = true ∧ s.foreign b e' = true ∧
      t = s.onBridge mp options b e') ∨
    (∃ b c msgid trigger params handler, e = .request b c msgid trigger params handler ∧
      (s.bridges b).reads c = true ∧ t = s.request mp options b c msgid trigger params handler) ∨
    (∃ requests responded, (∀ r, e ≠ .resume r) ∧ s.Turns requests responded ∧
      t = { s with requests := requests, responded := responded }) ∨
    (∃ r x rest, e = .resume r ∧ r < s.requests.next ∧ (s.invocation r).outcome = none ∧
      (s.requests.request r).settlements = x :: rest ∧
      t = s.onBridge mp options (s.task r).1 (.settle (s.task r).2 x.outcome)) := by
  obtain ⟨he, rfl⟩ := Machine.ofEnabled_step.mp hstep
  cases e with
  | bridge b e' =>
    obtain ⟨hen, hforeign⟩ := Bool.and_eq_true_iff.mp he
    exact .inl ⟨b, e', rfl, hen, hforeign, rfl⟩
  | request b c msgid trigger params handler =>
    exact .inr (.inl ⟨b, c, msgid, trigger, params, handler, rfl, he, rfl⟩)
  | respond p item => exact .inr (.inr (.inl ⟨_, _, nofun, turns_respond h p item, rfl⟩))
  | timeout r => exact .inr (.inr (.inl ⟨_, _, nofun, turns_timeout h he, rfl⟩))
  | tick ms =>
    refine .inr (.inr (.inl ⟨{ s.requests with now := s.requests.now + ms }, s.responded, nofun,
      ?_, rfl⟩))
    exact ⟨{ h.requests with }, rfl, fun r => .inl ⟨rfl, fun value => Iff.rfl⟩⟩
  | resume r =>
    simp only [enabled, Bool.and_eq_true, decide_eq_true_eq, Option.isNone_iff_eq_none] at he
    obtain ⟨⟨hr, hsome⟩, hopen⟩ := he
    refine .inr (.inr (.inr ?_))
    cases hxs : (s.requests.request r).settlements with
    | nil =>
      rw [hxs] at hsome
      contradiction
    | cons x rest =>
      refine ⟨r, x, rest, rfl, hr, hopen, hxs, ?_⟩
      show s.resume mp options r = _
      unfold resume
      rw [hxs]
      rfl

theorem Inv.settle_other (h : s.Inv) {r x : ℕ} (hr : r < s.requests.next) (hx : x < s.requests.next)
    (hrx : r ≠ x) {o o' : Outcome} (hb : (s.task r).1 = (s.task x).1) :
    Service.Event.settle (s.task x).2 o ≠ .settle (s.task r).2 o' := by
  intro heq
  injection heq with ht
  exact hrx (h.own r hr x hx (Prod.ext hb ht.symm))

theorem inv_step (h : s.Inv) (hstep : (machine mp options js).step s e = some t) : t.Inv := by
  rcases step_cases h hstep with ⟨b, e', -, he, hforeign, rfl⟩ |
    ⟨b, c, msgid, trigger, params, handler, -, hreads, rfl⟩ | ⟨requests, responded, -, hturns, rfl⟩ |
    ⟨r, x, rest, -, hr, hopen, hxs, rfl⟩
  · refine inv_onBridge h he fun r hr o hb hsettle => ?_
    exact absurd hsettle (foreign_settle hforeign hr o hb)
  · exact inv_request h hreads
  · exact inv_turns h hturns
  · have hen : (s.bridge r).enabled (.settle (s.task r).2 x.outcome) = true :=
      decide_eq_true ⟨h.born r hr, Option.isNone_iff_eq_none.mpr hopen⟩
    refine inv_onBridge h hen fun y hy o hb hsettle => ?_
    by_cases hyr : y = r
    · rw [hyr, hxs]
      exact List.cons_ne_nil _ _
    · exact absurd hsettle (h.settle_other hy hr hyr hb)

theorem inv_reach {ok : Guard Exchange Event} (h : (machine mp options js).Reach ok s) : s.Inv := by
  refine h.invariant ?_ ?_
  · intro s hs
    cases hs
    exact inv_initial
  · intro s e t _ hi hstep _
    exact inv_step hi hstep

/-! ### Delivery -/

/-- The value has been written to the connection of the REQUEST, if the handler has gone on. -/
def Due (s : Exchange) (r : ℕ) (value : JsValue) : Prop :=
  (s.invocation r).outcome ≠ none → (s.bridge r).Answers (s.task r).2 value

theorem due_onBridge (h : s.Inv) {r : ℕ} (hr : r < s.requests.next) {b : ℕ} {e' : Service.Event}
    (hother : ∀ o, (s.task r).1 = b → e' ≠ .settle (s.task r).2 o) (value : JsValue) :
    (s.onBridge mp options b e').Due r value ↔ s.Due r value := by
  have hborn := h.born r hr
  have htask : (s.onBridge mp options b e').invocation r = s.invocation r := by
    rcases (@task_onBridge mp options s b e' _ _ hborn).2 with hsame | ⟨o, hb, hsettle, -⟩
    · exact hsame
    · exact absurd hsettle (hother o hb)
  unfold Due
  rw [htask]
  constructor
  · exact fun hdue hne => answers_of_onBridge hborn hother (hdue hne)
  · exact fun hdue hne => answers_onBridge hborn (hdue hne)

theorem due_request (h : s.Inv) {r : ℕ} (hr : r < s.requests.next) {b c msgid : ℕ}
    {trigger : DeferredTrigger} {params : JsValue} {handler : ℕ} (value : JsValue) :
    (s.request mp options b c msgid trigger params handler).Due r value ↔ s.Due r value := by
  have hdue : (s.onBridge mp options b (.receive c (.nat msgid) trigger.method params handler)).Due r
      value ↔ s.Due r value := by
    refine due_onBridge h hr ?_ value
    exact fun _ _ => nofun
  have htask : (s.request mp options b c msgid trigger params handler).task r = s.task r :=
    request_task hr.ne
  unfold Due invocation bridge at hdue ⊢
  rw [htask]
  exact hdue

/-- What is due to a request changes only when its own handler goes on. -/
theorem due_step (h : s.Inv) (hstep : (machine mp options js).step s e = some t) {r : ℕ}
    (hr : r < s.requests.next) (he : e ≠ .resume r) (value : JsValue) :
    t.Due r value ↔ s.Due r value := by
  rcases step_cases h hstep with ⟨b, e', -, -, hforeign, rfl⟩ |
    ⟨b, c, msgid, trigger, params, handler, -, -, rfl⟩ | ⟨requests, responded, -, -, rfl⟩ |
    ⟨x, y, rest, rfl, hx, -, -, rfl⟩
  · exact due_onBridge h hr (fun o hb => foreign_settle hforeign hr o hb) value
  · exact due_request h hr value
  · exact Iff.rfl
  · have hrx : r ≠ x := by
      rintro rfl
      exact he rfl
    exact due_onBridge h hr (fun o hb => h.settle_other hr hx hrx hb) value

theorem responded_step (h : s.Inv) (hstep : (machine mp options js).step s e = some t) {r : ℕ}
    {value : JsValue} : ((r, value) ∈ s.responded → (r, value) ∈ t.responded) ∧
      ((r, value) ∈ t.responded → (r, value) ∈ s.responded ∨ t.Due r value) := by
  rcases step_cases h hstep with ⟨b, e', -, -, -, rfl⟩ |
    ⟨b, c, msgid, trigger, params, handler, -, -, rfl⟩ | ⟨requests, responded, -, hturns, rfl⟩ |
    ⟨x, y, rest, -, -, -, -, rfl⟩
  · exact ⟨id, .inl⟩
  · exact ⟨id, .inl⟩
  · rcases hturns.settles r with ⟨-, hmem⟩ | ⟨hr, hopen, -⟩
    · exact ⟨(hmem value).mpr, fun hnew => .inl ((hmem value).mp hnew)⟩
    · constructor
      · intro hold
        have hsettled := ((h.resolved r value).mp hold).2
        rw [hopen] at hsettled
        contradiction
      · exact fun _ => .inr fun hne => absurd (h.waits r hr hopen) hne
  · exact ⟨id, .inl⟩

/-- When the handler of a resolved promise goes on, it answers exactly if it can. -/
theorem due_resume (h : s.Inv) {r : ℕ} {value : JsValue} (hmem : (r, value) ∈ s.responded)
    (hstep : (machine mp options js).step s (.resume r) = some t) :
    t.Due r value ↔ (s.bridge r).CanAnswer mp (s.task r).2 value := by
  obtain ⟨hr, hsettled⟩ := (h.resolved r value).mp hmem
  rcases step_cases h hstep with ⟨_, _, heq, -⟩ | ⟨_, _, _, _, _, _, heq, -⟩ | ⟨_, _, hne, -⟩ |
    ⟨x, y, rest, heq, -, hopen, hxs, rfl⟩
  · contradiction
  · contradiction
  · exact absurd rfl (hne r)
  · injection heq with heq
    subst heq
    rw [hsettled] at hxs
    injection hxs with hy hrest
    subst hy
    have hself : (s.onBridge mp options (s.task r).1
        (.settle (s.task r).2 (.returned value))).bridge r =
        (s.bridge r).settle mp (s.task r).2 (.returned value) := onBridge_self
    have hended : (((s.bridge r).settle mp (s.task r).2 (.returned value)).tasks
        (s.task r).2).outcome ≠ none := by
      rw [Service.settle_tasks, if_pos rfl]
      exact Option.some_ne_none _
    unfold Due invocation Settlement.outcome
    rw [hself]
    refine Iff.trans ?_ (Service.answers_settle (h.authored _) hopen value)
    exact ⟨fun hdue => hdue hended, fun hanswers _ => hanswers⟩

theorem timely_iff {r : ℕ} {value : JsValue} (h : s.Inv) (hmem : (r, value) ∈ s.responded) :
    s.Timely mp r ↔ (s.bridge r).CanAnswer mp (s.task r).2 value := by
  unfold Timely
  rw [((h.resolved r value).mp hmem).2]
  rfl

theorem delivered_step (h : s.Inv) (hd : s.Delivered)
    (hstep : (machine mp options js).step s e = some t) (hg : InTime mp s e t) : t.Delivered := by
  intro r value hmem
  rcases (responded_step h hstep).2 hmem with hold | hdue
  · by_cases he : e = .resume r
    · subst he
      exact (due_resume h hold hstep).mpr ((timely_iff h hold).mp hg)
    · exact (due_step h hstep ((h.resolved r value).mp hold).1 he value).mpr (hd r value hold)
  · exact hdue

/-- A Respond node has put out `responded: true`, and the handler has gone on without an answer. -/
def Missed (s : Exchange) : Prop := ∃ r value, (r, value) ∈ s.responded ∧ ¬ s.Due r value

theorem missed_step (h : s.Inv) (hm : s.Missed)
    (hstep : (machine mp options js).step s e = some t) : t.Missed := by
  obtain ⟨r, value, hmem, hnot⟩ := hm
  have hr := ((h.resolved r value).mp hmem).1
  have he : e ≠ .resume r := by
    rintro rfl
    obtain ⟨hen, -⟩ := Machine.ofEnabled_step.mp hstep
    have hopen : (s.invocation r).outcome.isNone = true := (Bool.and_eq_true_iff.mp hen).2
    exact hnot fun hne => absurd (Option.isNone_iff_eq_none.mp hopen) hne
  refine ⟨r, value, (responded_step h hstep).1 hmem, ?_⟩
  rw [due_step h hstep hr he]
  exact hnot

theorem missed_of_late (h : s.Inv) (hstep : (machine mp options js).step s e = some t)
    (hg : ¬ InTime mp s e t) : t.Missed := by
  cases e with
  | resume r =>
    have hr : r < s.requests.next ∧ (s.requests.request r).settlements.length ≤ 1 := by
      obtain ⟨hen, -⟩ := Machine.ofEnabled_step.mp hstep
      have hlt := (Bool.and_eq_true_iff.mp (Bool.and_eq_true_iff.mp hen).1).1
      exact ⟨of_decide_eq_true hlt, h.requests.once r⟩
    change ¬ s.Timely mp r at hg
    cases hxs : (s.requests.request r).settlements with
    | nil =>
      unfold Timely at hg
      rw [hxs] at hg
      exact absurd trivial hg
    | cons x rest =>
      cases x with
      | resolved value =>
        have hnil : rest = [] := by
          have hlen := hr.2
          rw [hxs, List.length_cons] at hlen
          exact List.eq_nil_of_length_eq_zero (by omega)
        subst hnil
        have hmem : (r, value) ∈ s.responded := (h.resolved r value).mpr ⟨hr.1, hxs⟩
        refine ⟨r, value, (responded_step h hstep).1 hmem, fun hdue => hg ?_⟩
        exact (timely_iff h hmem).mpr ((due_resume h hmem hstep).mp hdue)
      | rejected message =>
        unfold Timely at hg
        rw [hxs] at hg
        exact absurd trivial hg
  | _ => exact absurd trivial hg

end Runs

variable {mp : Msgpack} {options : ℕ → ReconnectOptions} {js : Platform}

theorem delivered_reach {s : Exchange} (h : (machine mp options js).Reach (InTime mp) s) :
    s.Delivered := by
  refine h.invariant (P := Delivered) ?_ ?_
  · intro s hs
    cases hs
    exact nofun
  · intro s e t hr hd hstep hg
    exact delivered_step (inv_reach hr) hd hstep hg

theorem inTime_or_missed {s : Exchange} (h : (machine mp options js).Reach always s) :
    (machine mp options js).Reach (InTime mp) s ∨ s.Missed := by
  refine h.guarded_or fun s e t hr hstep hs => ?_
  have hi : s.Inv := inv_reach hr
  rcases hs with hm | hg
  · exact missed_step hi hm hstep
  · exact missed_of_late hi hstep hg

/-- After any run every `responded: true` stands for a RESPONSE exactly when all handlers whose
promises were resolved have gone on while they could answer. -/
theorem delivered_iff (mp : Msgpack) (options : ℕ → ReconnectOptions) (js : Platform) (s : Exchange)
    (h : (machine mp options js).Reach always s) :
    s.Delivered ↔ (machine mp options js).Reach (InTime mp) s := by
  constructor
  · intro hd
    rcases inTime_or_missed h with hin | hm
    · exact hin
    · obtain ⟨r, value, hmem, hnot⟩ := hm
      exact absurd (hd r value hmem) hnot
  · exact delivered_reach

/-- A board asks, and a Respond node answers its item. -/
def asking : List Event :=
  [.request 0 0 1 ⟨"ask", "ssh:q1", 1000⟩ (.arr []) 0,
    .respond Requests.answerText (Request.item ⟨⟨"ask", "ssh:q1", 1000⟩, 0, 1, .arr [], .cleared, []⟩)]

def plainOptions (_ : ℕ) : ReconnectOptions := ⟨true, 200, 5000⟩

def answeredState : Exchange :=
  (machine reference plainOptions Requests.plainPlatform).after always initial
    (asking ++ [.resume 0])

theorem answered_delivered : answeredState.responded.map Prod.fst = [0] ∧
    answeredState.Delivered := by
  have hinit : (machine reference plainOptions Requests.plainPlatform).Reach always initial :=
    .init rfl
  have hinit' : (machine reference plainOptions Requests.plainPlatform).Reach (InTime reference)
      initial := .init rfl
  have hsame : answeredState = (machine reference plainOptions Requests.plainPlatform).after
      (InTime reference) initial (asking ++ [.resume 0]) :=
    Machine.after_mono (fun _ _ _ _ => trivial) (by decide +kernel)
  refine ⟨by decide +kernel, ?_⟩
  refine (delivered_iff reference plainOptions Requests.plainPlatform _ (hinit.after _)).mpr ?_
  exact hsame ▸ hinit'.after _

/-- The connection closes before the handler goes on. -/
def droppedState : Exchange :=
  (machine reference plainOptions Requests.plainPlatform).after always initial
    (asking ++ [.bridge 0 (.closed 0 100), .resume 0])

theorem dropped_undelivered :
    ¬ ∀ (mp : Msgpack) (options : ℕ → ReconnectOptions) (js : Platform) (s : Exchange),
      (machine mp options js).Reach always s → s.Delivered := by
  intro hall
  have hinit : (machine reference plainOptions Requests.plainPlatform).Reach always initial :=
    .init rfl
  have hd := hall reference plainOptions Requests.plainPlatform droppedState (hinit.after _)
  have hmem : (0, JsValue.str "done") ∈ droppedState.responded := by
    have hresponded : droppedState.responded = [(0, .str "done")] := by rfl
    rw [hresponded]
    exact List.mem_singleton_self _
  have hended : (droppedState.invocation 0).outcome.isSome = true := by decide +kernel
  have hnone : (droppedState.bridge 0).link.sent.isEmpty = true := by decide +kernel
  obtain ⟨f, hf, -⟩ := hd 0 _ hmem (Option.isSome_iff_ne_none.mp hended)
  rw [List.isEmpty_iff.mp hnone] at hf
  contradiction

end Exchange

end UnoQ.Nodes
