import UnoQ.Client.Views

/-!
# One chunk, one loop

What the loop of `onData` does with the messages of a chunk when handlers of notifications throw. An
exception leaves both loops, the one over the subscribers and the one over the messages, and the decoder
has already dropped the bytes: what was still to come is lost.
-/

namespace UnoQ.Client
open Codec Transition BigEndian

/-- The handler invocations so far: handler, id, parameters. -/
def Service.invoked (w : Service) : List (ℕ × JsValue × JsValue) :=
  (List.range w.nextTask).map fun t => ((w.tasks t).handler, (w.tasks t).msgid, (w.tasks t).params)

namespace Bridge

/-! ### The loop -/

/-- The place of the first subscriber of a message that throws. -/
def thrower (s : Bridge) (raises : ℕ → Bool) : JsValue → Option ℕ
  | .arr msg => (s.subscribers (JsValue.index msg 1)).findIdx? raises
  | _ => none

/-- The loop over at most `n` messages from the `j`-th on. `raises j h` tells whether handler `h` throws
on the `j`-th message. -/
def dispatchAll (host : Host) (raises : ℕ → ℕ → Bool) : ℕ → ℕ → Bridge → Bridge
  | 0, _, s => s
  | n + 1, j, s =>
    match s.receiver.inbox with
    | [] => s
    | msg :: _ => dispatchAll host raises n (j + 1) (s.dispatch host (s.thrower (raises j) msg))

def handleChunk (host : Host) (raises : ℕ → ℕ → Bool) (s : Bridge) (c : ℕ) (chunk : Bytes) : Bridge :=
  let s := s.onData host c chunk
  s.dispatchAll host raises s.receiver.inbox.length 0

/-! ### What messages ask for -/

def answeredId : JsValue → Option ℕ
  | .arr msg =>
    if messageType msg = some (MSG_RESPONSE : ℤ) then pendingId (JsValue.index msg 1) else none
  | _ => none

def isInboundRequest : JsValue → Bool
  | .arr msg => messageType msg = some (MSG_REQUEST : ℤ)
  | _ => false

/-- The REQUESTs among the messages as the service records them, the first one under number `n`. -/
def requestKeys (c : ℕ) : ℕ → List JsValue → List (ℕ × MapKey)
  | _, [] => []
  | n, .arr msg :: rest =>
    if messageType msg = some (MSG_REQUEST : ℤ) then
      (c, (JsValue.index msg 1).mapKey n) :: requestKeys c (n + 1) rest
    else requestKeys c n rest
  | n, _ :: rest => requestKeys c n rest

/-- The handler invocation that a REQUEST for a provided method asks for. -/
def invocation (s : Bridge) : JsValue → Option (ℕ × JsValue × JsValue)
  | .arr msg =>
    if messageType msg = some (MSG_REQUEST : ℤ) then
      (s.provider (JsValue.index msg 2)).map fun p => (p.2, JsValue.index msg 1, JsValue.index msg 3)
    else none
  | _ => none

/-- The handler invocations that a NOTIFY asks for. -/
def notices (s : Bridge) : JsValue → List (ℕ × JsValue)
  | .arr msg =>
    if messageType msg = some (MSG_NOTIFY : ℤ) then
      (s.subscribers (JsValue.index msg 1)).map fun h => (h, JsValue.index msg 2)
    else []
  | _ => []

/-- From `s` to `t`, the pending call of every RESPONSE is settled, every REQUEST is dispatched, and every
subscriber of a NOTIFY is invoked once for it. -/
structure HandledAll (s t : Bridge) (c : ℕ) (messages : List JsValue) : Prop where
  settled : ∀ msg ∈ messages, ∀ id ∈ answeredId msg, t.calls.pending.get id = none ∧
    ∀ a, s.calls.pending.get id = some a → (t.calls.attempts a).settled.isSome = true
  requests : t.service.requests =
    s.service.requests ++ requestKeys c s.service.requests.length messages
  invoked : t.service.invoked = s.service.invoked ++ messages.filterMap s.invocation
  notified : t.notified = s.notified ++ messages.flatMap s.notices

/-! ### When nothing is lost -/

def throwsOn (host : Host) (s : Bridge) (raises : ℕ → Bool) : JsValue → Bool
  | .arr msg => s.throws host msg (s.thrower raises (.arr msg))
  | _ => false

/-- If the message is a RESPONSE, its call is not pending, or a message before it settles it. -/
def Settled (s : Bridge) (before : List JsValue) (msg : JsValue) : Prop :=
  ∀ id ∈ answeredId msg, s.calls.pending.get id = none ∨ ∃ m ∈ before, answeredId m = some id

/-- Nothing is to be done about a message. -/
def Void (s : Bridge) (before : List JsValue) (msg : JsValue) : Prop :=
  s.Settled before msg ∧ isInboundRequest msg = false ∧ s.notices msg = []

/-- When the first exception leaves the loops, no subscriber of its message is still to come, and
nothing is to be done about the messages that are. -/
def LosesNothing (host : Host) (raises : ℕ → ℕ → Bool) (s : Bridge) :
    List JsValue → List JsValue → Prop
  | _, [] => True
  | before, msg :: rest =>
    if s.throwsOn host (raises before.length) msg = true then
      s.Settled before msg ∧
        (∀ i ∈ s.thrower (raises before.length) msg, (s.notices msg).length ≤ i + 1) ∧
        ∀ m ∈ rest, s.Void before m
    else LosesNothing host raises s (before ++ [msg]) rest

/-! ### One message -/

theorem requestKeys_append (c : ℕ) (a b : List JsValue) :
    ∀ n, requestKeys c n (a ++ b) =
      requestKeys c n a ++ requestKeys c (n + (requestKeys c n a).length) b := by
  induction a with
  | nil => exact fun n => rfl
  | cons msg rest ih =>
    intro n
    cases msg with
    | arr msg =>
      simp only [List.cons_append, requestKeys]
      split
      · rw [ih, List.cons_append, List.length_cons]
        congr 3
        omega
      · exact ih n
    | _ => exact ih n

theorem handleMessage_tables (host : Host) (s : Bridge) (msg : List JsValue) (th : Option ℕ) :
    (s.handleMessage host msg th).providers = s.providers ∧
      (s.handleMessage host msg th).notifyHandlers = s.notifyHandlers := by
  unfold handleMessage
  dsimp only
  split
  · unfold handleResponse
    split
    · exact ⟨rfl, rfl⟩
    · split <;> exact ⟨rfl, rfl⟩
  · split
    · unfold handleRequest
      dsimp only
      split <;> exact ⟨rfl, rfl⟩
    · split <;> exact ⟨rfl, rfl⟩

theorem invoked_receive (w : Service) (c : ℕ) (msgid : JsValue) (name : String) (params : JsValue)
    (handler : ℕ) : (w.receive c msgid name params handler).invoked =
      w.invoked ++ [(handler, msgid, params)] := by
  unfold Service.invoked Service.receive
  dsimp only
  rw [List.range_succ, List.map_append, List.map_singleton, Function.update_self]
  refine congrArg (· ++ _) (List.map_congr_left fun t ht => ?_)
  rw [Function.update_of_ne]
  exact Nat.ne_of_lt (List.mem_range.mp ht)

theorem handleMessage_service (host : Host) (s : Bridge) (msg : List JsValue) (th : Option ℕ) :
    (s.handleMessage host msg th).service.requests = s.service.requests ++
        requestKeys s.receiver.conn s.service.requests.length [.arr msg] ∧
      (s.handleMessage host msg th).service.invoked =
        s.service.invoked ++ (s.invocation (.arr msg)).toList := by
  simp only [handleMessage, requestKeys, invocation]
  split
  next hresponse =>
    have hother : messageType msg ≠ some (MSG_REQUEST : ℤ) := by
      rw [hresponse]
      decide
    rw [if_neg hother, if_neg hother, List.append_nil]
    refine ⟨?_, ?_⟩
    all_goals
      unfold handleResponse
      split
      · simp
      · split <;> simp
  next =>
    split
    next =>
      unfold handleRequest
      dsimp only
      cases hprovider : s.provider (JsValue.index msg 2) with
      | none =>
        unfold Service.refuse
        dsimp only
        split <;> exact ⟨rfl, (List.append_nil _).symm⟩
      | some p => exact ⟨rfl, invoked_receive ..⟩
    next =>
      split
      · exact ⟨(List.append_nil _).symm, (List.append_nil _).symm⟩
      · exact ⟨(List.append_nil _).symm, (List.append_nil _).symm⟩

theorem handleMessage_notified (host : Host) (s : Bridge) (msg : List JsValue) (th : Option ℕ) :
    (s.handleMessage host msg th).notified = s.notified ++ match th with
      | none => s.notices (.arr msg)
      | some i => (s.notices (.arr msg)).take (i + 1) := by
  simp only [handleMessage, notices]
  split
  next hresponse =>
    have hother : messageType msg ≠ some (MSG_NOTIFY : ℤ) := by
      rw [hresponse]
      decide
    rw [if_neg hother]
    have hsame : (s.handleResponse host (JsValue.index msg 1) (JsValue.index msg 2)
        (JsValue.index msg 3)).notified = s.notified := by
      unfold handleResponse
      split
      · rfl
      · split <;> rfl
    rw [hsame]
    cases th <;> simp
  next =>
    split
    next hrequest =>
      have hother : messageType msg ≠ some (MSG_NOTIFY : ℤ) := by
        rw [hrequest]
        decide
      rw [if_neg hother]
      have hsame : (s.handleRequest host (JsValue.index msg 1) (JsValue.index msg 2)
          (JsValue.index msg 3)).notified = s.notified := by
        unfold handleRequest
        dsimp only
        split <;> rfl
      rw [hsame]
      cases th <;> simp
    next =>
      split
      next hnotify =>
        unfold handleNotify
        cases th with
        | none => rfl
        | some i => simp [List.map_take]
      next hother => cases th <;> simp

/-- A RESPONSE whose error cannot be made into a text settles nothing. -/
theorem handleMessage_calls (host : Host) (s : Bridge) (msg : List JsValue) (th : Option ℕ) :
    (s.handleMessage host msg th).calls =
      match answeredId (.arr msg) with
      | none => s.calls
      | some id =>
        if s.throws host msg th = true then s.calls
        else s.calls.respond id (host.settlement (JsValue.index msg 2) (JsValue.index msg 3)) := by
  unfold handleMessage answeredId throws
  dsimp only
  split
  next =>
    unfold handleResponse
    simp only [Bool.and_eq_true]
    cases pendingId (JsValue.index msg 1) with
    | none => split <;> rfl
    | some id => split <;> rfl
  next =>
    split
    · unfold handleRequest
      dsimp only
      split <;> rfl
    · split <;> rfl

theorem thrower_congr {s u : Bridge} (h : u.notifyHandlers = s.notifyHandlers) (raises : ℕ → Bool)
    (msg : JsValue) : u.thrower raises msg = s.thrower raises msg := by
  unfold thrower subscribers
  rw [h]

theorem throws_congr {s u : Bridge} (hp : u.providers = s.providers)
    (hn : u.notifyHandlers = s.notifyHandlers) (host : Host) (msg : List JsValue) (th : Option ℕ) :
    u.throws host msg th = s.throws host msg th := by
  unfold throws provider subscribers
  rw [hp, hn]

theorem notices_congr {s u : Bridge} (h : u.notifyHandlers = s.notifyHandlers) (msg : JsValue) :
    u.notices msg = s.notices msg := by
  unfold notices subscribers
  rw [h]

theorem invocation_congr {s u : Bridge} (h : u.providers = s.providers) (msg : JsValue) :
    u.invocation msg = s.invocation msg := by
  unfold invocation provider
  rw [h]

theorem respond_pending (c : Calls) (msgid : ℕ) (r : Settlement) (id : ℕ) :
    (c.respond msgid r).pending.get id = if msgid = id then none else c.pending.get id := by
  unfold Calls.respond
  split
  next hnone =>
    split
    next hid => exact hid ▸ hnone
    · rfl
  · exact InsertMap.get_delete ..

/-- A promise that is settled stays settled. -/
theorem respond_settled (c : Calls) (msgid : ℕ) (r : Settlement) (a : ℕ)
    (h : (c.attempts a).settled.isSome = true ∨ c.pending.get msgid = some a) :
    ((c.respond msgid r).attempts a).settled.isSome = true := by
  unfold Calls.respond
  split
  next hnone =>
    rcases h with h | h
    · exact h
    · rw [hnone] at h
      contradiction
  next b hb =>
    have hat : (c.retire msgid b (some msgid) r).attempts a = if a = b then
        { c.attempts b with timer := none, settled := (c.attempts b).settled.or (some r) }
        else c.attempts a := Function.update_apply ..
    rw [hat]
    split
    · cases (c.attempts b).settled <;> rfl
    next hne =>
      rcases h with h | h
      · exact h
      · rw [hb] at h
        exact absurd (Option.some.inj h).symm hne

/-! ### The messages before an exception -/

/-- From `s` to `u` the loop has handled the messages `before` in full. -/
structure After (s u : Bridge) (c : ℕ) (before : List JsValue) : Prop where
  providers : u.providers = s.providers
  notifyHandlers : u.notifyHandlers = s.notifyHandlers
  conn : u.receiver.conn = c
  answered : ∀ id, (∃ m ∈ before, answeredId m = some id) → u.calls.pending.get id = none ∧
    ∀ a, s.calls.pending.get id = some a → (u.calls.attempts a).settled.isSome = true
  pending : ∀ id, (∀ m ∈ before, answeredId m ≠ some id) →
    u.calls.pending.get id = s.calls.pending.get id
  requests : u.service.requests =
    s.service.requests ++ requestKeys c s.service.requests.length before
  invoked : u.service.invoked = s.service.invoked ++ before.filterMap s.invocation
  notified : u.notified = s.notified ++ before.flatMap s.notices

/-- What dispatching one message does, however it ends. -/
theorem after_service {s u : Bridge} {c : ℕ} {before : List JsValue} (h : s.After u c before)
    (host : Host) (msg : List JsValue) (th : Option ℕ) :
    (u.handleMessage host msg th).service.requests = s.service.requests ++
        requestKeys c s.service.requests.length (before ++ [.arr msg]) ∧
      (u.handleMessage host msg th).service.invoked =
        s.service.invoked ++ (before ++ [JsValue.arr msg]).filterMap s.invocation := by
  obtain ⟨hrequests, hinvoked⟩ := handleMessage_service host u msg th
  constructor
  · rw [hrequests, h.conn, h.requests, List.length_append, List.append_assoc, requestKeys_append]
  · rw [hinvoked, h.invoked, List.append_assoc, List.filterMap_append,
      invocation_congr h.providers]
    cases hi : s.invocation (.arr msg) <;> simp [hi]

/-- A message that is no array is passed over. -/
theorem after_skip {s u : Bridge} {c : ℕ} {before : List JsValue} (h : s.After u c before)
    {msg : JsValue} (hmsg : isArray msg = false) (hconn : u.receiver.next.conn = c) :
    s.After { u with receiver := u.receiver.next } c (before ++ [msg]) := by
  have hnone : answeredId msg = none ∧ s.invocation msg = none ∧ s.notices msg = [] ∧
      ∀ n, requestKeys c n [msg] = [] := by
    cases msg with
    | arr msg => contradiction
    | _ => exact ⟨rfl, rfl, rfl, fun _ => rfl⟩
  obtain ⟨hid, hinvocation, hnotices, hkeys⟩ := hnone
  refine ⟨h.providers, h.notifyHandlers, hconn, fun id hm => ?_, fun id hm => ?_, ?_, ?_, ?_⟩
  · obtain ⟨m, hm, hmid⟩ := hm
    rcases List.mem_append.mp hm with hm | hm
    · exact h.answered id ⟨m, hm, hmid⟩
    · rw [List.mem_singleton.mp hm, hid] at hmid
      contradiction
  · exact h.pending id fun m hm' => hm m (List.mem_append_left _ hm')
  · rw [requestKeys_append, hkeys, List.append_nil]
    exact h.requests
  · rw [List.filterMap_append]
    simp only [List.filterMap_cons, hinvocation, List.filterMap_nil, List.append_nil]
    exact h.invoked
  · rw [List.flatMap_append]
    simp only [List.flatMap_cons, hnotices, List.flatMap_nil, List.append_nil]
    exact h.notified

/-- Where a subscriber throws on a message that does not end the loop, the message is no NOTIFY. -/
theorem notices_of_keeps {s : Bridge} {host : Host} {msg : List JsValue} {raises : ℕ → Bool}
    (hkeeps : s.throws host msg (s.thrower raises (.arr msg)) = false) {i : ℕ}
    (hi : s.thrower raises (.arr msg) = some i) : s.notices (.arr msg) = [] := by
  unfold notices
  dsimp only
  split
  next hnotify =>
    have hresponse : messageType msg ≠ some (MSG_RESPONSE : ℤ) := by
      rw [hnotify]
      decide
    have hrequest : messageType msg ≠ some (MSG_REQUEST : ℤ) := by
      rw [hnotify]
      decide
    obtain ⟨hlt, -⟩ := List.findIdx?_eq_some_iff_getElem.mp hi
    rw [hi] at hkeeps
    unfold throws at hkeeps
    dsimp only at hkeeps
    rw [if_neg hresponse, if_neg hrequest, if_pos hnotify] at hkeeps
    exact absurd hlt (of_decide_eq_false hkeeps)
  · rfl

theorem after_message {s u : Bridge} {c : ℕ} {before : List JsValue} (h : s.After u c before)
    {host : Host} {msg : List JsValue} {raises : ℕ → Bool}
    (hkeeps : s.throws host msg (s.thrower raises (.arr msg)) = false)
    (hconn : u.receiver.next.conn = c) :
    s.After { u.handleMessage host msg (s.thrower raises (.arr msg)) with receiver := u.receiver.next }
      c (before ++ [.arr msg]) := by
  have htables := handleMessage_tables host u msg (s.thrower raises (.arr msg))
  have hservice := after_service h host msg (s.thrower raises (.arr msg))
  have hcalls := handleMessage_calls host u msg (s.thrower raises (.arr msg))
  rw [throws_congr h.providers h.notifyHandlers, hkeeps] at hcalls
  refine ⟨htables.1.trans h.providers, htables.2.trans h.notifyHandlers, hconn, fun id hm => ?_,
    fun id hm => ?_, hservice.1, hservice.2, ?_⟩
  · dsimp only
    rw [hcalls]
    obtain ⟨m, hm, hmid⟩ := hm
    cases hid : answeredId (.arr msg) with
    | none =>
      dsimp only
      refine h.answered id ⟨m, ?_, hmid⟩
      rcases List.mem_append.mp hm with hm | hm
      · exact hm
      · rw [List.mem_singleton.mp hm, hid] at hmid
        contradiction
    | some i =>
      dsimp only
      rw [if_neg (by decide), respond_pending]
      by_cases hbefore : ∃ m ∈ before, answeredId m = some id
      · obtain ⟨hnone, hsettled⟩ := h.answered id hbefore
        refine ⟨?_, fun a ha => respond_settled _ _ _ _ (Or.inl (hsettled a ha))⟩
        rw [hnone]
        split <;> rfl
      · have hmine : i = id := by
          rcases List.mem_append.mp hm with hm | hm
          · exact absurd ⟨m, hm, hmid⟩ hbefore
          · rw [List.mem_singleton.mp hm, hid] at hmid
            exact Option.some.inj hmid
        refine ⟨if_pos hmine, fun a ha => respond_settled _ _ _ _ (Or.inr ?_)⟩
        rw [hmine, h.pending id fun m hm hmid => hbefore ⟨m, hm, hmid⟩]
        exact ha
  · dsimp only
    rw [hcalls, ← h.pending id fun m hm' => hm m (List.mem_append_left _ hm')]
    cases hid : answeredId (.arr msg) with
    | none => rfl
    | some i =>
      dsimp only
      rw [if_neg (by decide), respond_pending, if_neg]
      intro hmine
      exact hm (.arr msg) (by simp) (hmine ▸ hid)
  · dsimp only
    rw [handleMessage_notified, h.notified, List.flatMap_append, notices_congr h.notifyHandlers,
      List.append_assoc]
    refine congrArg (fun l => s.notified ++ (before.flatMap s.notices ++ l)) ?_
    simp only [List.flatMap_cons, List.flatMap_nil, List.append_nil]
    cases hth : s.thrower raises (.arr msg) with
    | none => rfl
    | some i =>
      rw [notices_of_keeps hkeeps hth]
      rfl

theorem after_dispatch {s u : Bridge} {c : ℕ} {before rest : List JsValue} {msg : JsValue}
    (h : s.After u c before) {host : Host} {raises : ℕ → Bool}
    (hin : u.receiver.inbox = msg :: rest) (hkeeps : s.throwsOn host raises msg = false) :
    s.After (u.dispatch host (s.thrower raises msg)) c (before ++ [msg]) ∧
      (u.dispatch host (s.thrower raises msg)).receiver.inbox = rest := by
  have hconn : u.receiver.next.conn = c := (Receiver.next_conn u.receiver).1.trans h.conn
  have hnext : u.receiver.next.inbox = rest := by
    unfold Receiver.next
    rw [hin]
  unfold dispatch
  rw [hin]
  cases msg with
  | arr msg =>
    have hthrows : u.throws host msg (s.thrower raises (.arr msg)) = false :=
      (throws_congr h.providers h.notifyHandlers ..).trans hkeeps
    dsimp only
    rw [if_neg (by rw [hthrows]; decide)]
    exact ⟨after_message h hkeeps hconn, hnext⟩
  | _ => exact ⟨after_skip h rfl hconn, hnext⟩

/-! ### The message of an exception -/

/-- From `s` to `t` the loop has handled `before` in full and dispatched `msg`, which threw. -/
structure Cut (s t : Bridge) (c : ℕ) (raises : ℕ → Bool) (before : List JsValue) (msg : JsValue) :
    Prop where
  answered : ∀ id, (∃ m ∈ before, answeredId m = some id) → t.calls.pending.get id = none ∧
    ∀ a, s.calls.pending.get id = some a → (t.calls.attempts a).settled.isSome = true
  pending : ∀ id, (∀ m ∈ before, answeredId m ≠ some id) →
    t.calls.pending.get id = s.calls.pending.get id
  requests : t.service.requests =
    s.service.requests ++ requestKeys c s.service.requests.length (before ++ [msg])
  invoked : t.service.invoked = s.service.invoked ++ (before ++ [msg]).filterMap s.invocation
  notified : t.notified = s.notified ++ (before.flatMap s.notices ++ match s.thrower raises msg with
    | none => s.notices msg
    | some i => (s.notices msg).take (i + 1))

theorem cut_dispatch {s u : Bridge} {c : ℕ} {before rest : List JsValue} {msg : JsValue}
    (h : s.After u c before) {host : Host} {raises : ℕ → Bool}
    (hin : u.receiver.inbox = msg :: rest) (hthrows : s.throwsOn host raises msg = true) :
    s.Cut (u.dispatch host (s.thrower raises msg)) c raises before msg ∧
      (u.dispatch host (s.thrower raises msg)).receiver.inbox = [] := by
  unfold dispatch
  rw [hin]
  cases msg with
  | arr msg =>
    have hthrows' : u.throws host msg (s.thrower raises (.arr msg)) = true :=
      (throws_congr h.providers h.notifyHandlers ..).trans hthrows
    have hcalls : (u.handleMessage host msg (s.thrower raises (.arr msg))).calls = u.calls := by
      rw [handleMessage_calls, hthrows']
      cases answeredId (.arr msg) <;> rfl
    have hservice := after_service h host msg (s.thrower raises (.arr msg))
    dsimp only
    rw [if_pos hthrows']
    refine ⟨⟨fun id hm => ?_, fun id hm => ?_, hservice.1, hservice.2, ?_⟩, rfl⟩
    · dsimp only
      rw [hcalls]
      exact h.answered id hm
    · dsimp only
      rw [hcalls]
      exact h.pending id hm
    · dsimp only
      rw [handleMessage_notified, h.notified, notices_congr h.notifyHandlers, List.append_assoc]
  | _ => contradiction

theorem requestKeys_cons_eq_nil (c n : ℕ) (msg : JsValue) (rest : List JsValue) :
    requestKeys c n (msg :: rest) = [] ↔ isInboundRequest msg = false ∧ requestKeys c n rest = [] := by
  cases msg with
  | arr msg =>
    simp only [requestKeys, isInboundRequest]
    split
    next h => simp [h]
    next h => simp [h]
  | _ => simp [requestKeys, isInboundRequest]

theorem requestKeys_eq_nil (c n : ℕ) (messages : List JsValue) :
    requestKeys c n messages = [] ↔ ∀ m ∈ messages, isInboundRequest m = false := by
  induction messages with
  | nil => simp [requestKeys]
  | cons msg rest ih => rw [requestKeys_cons_eq_nil, ih, List.forall_mem_cons]

theorem take_eq_append {α : Type} {l more : List α} {n : ℕ} (h : l.take n = l ++ more) :
    l.length ≤ n ∧ more = [] := by
  have hlen := congrArg List.length h
  rw [List.length_take, List.length_append] at hlen
  exact ⟨by omega, List.length_eq_zero_iff.mp (by omega)⟩

theorem invocation_eq_none {s : Bridge} {msg : JsValue} (h : isInboundRequest msg = false) :
    s.invocation msg = none := by
  cases msg with
  | arr msg => exact if_neg (of_decide_eq_false h)
  | _ => rfl

/-- After an exception all has been handled if nothing was to be done any more. -/
theorem handledAll_of_cut {s t : Bridge} {c : ℕ} {raises : ℕ → Bool} {before rest : List JsValue}
    {msg : JsValue} (h : s.Cut t c raises before msg) :
    s.HandledAll t c (before ++ msg :: rest) ↔ s.Settled before msg ∧
      (∀ i ∈ s.thrower raises msg, (s.notices msg).length ≤ i + 1) ∧ ∀ m ∈ rest, s.Void before m := by
  have hsplit : before ++ msg :: rest = (before ++ [msg]) ++ rest := by simp
  have hpending : ∀ m, (∀ id ∈ answeredId m, t.calls.pending.get id = none ∧
      ∀ a, s.calls.pending.get id = some a → (t.calls.attempts a).settled.isSome = true) ↔
      s.Settled before m := by
    intro m
    refine forall₂_congr fun id _ => ⟨fun ⟨hnone, _⟩ => ?_, fun hor => ?_⟩
    · by_cases hbefore : ∃ m ∈ before, answeredId m = some id
      · exact Or.inr hbefore
      · left
        rw [← h.pending id fun m hm hid => hbefore ⟨m, hm, hid⟩]
        exact hnone
    · by_cases hbefore : ∃ m ∈ before, answeredId m = some id
      · exact h.answered id hbefore
      · have hnone := hor.resolve_right hbefore
        rw [h.pending id fun m hm hid => hbefore ⟨m, hm, hid⟩]
        refine ⟨hnone, fun a ha => ?_⟩
        rw [hnone] at ha
        contradiction
  constructor
  · intro hall
    have hkeys : ∀ m ∈ rest, isInboundRequest m = false := by
      have hrequests := hall.requests
      rw [h.requests, hsplit, requestKeys_append _ (before ++ [msg]), ← List.append_assoc] at hrequests
      exact (requestKeys_eq_nil c _ rest).mp (List.self_eq_append_right.mp hrequests)
    have hnotified := hall.notified
    rw [h.notified, List.flatMap_append, List.flatMap_cons] at hnotified
    have htail := List.append_cancel_left (List.append_cancel_left hnotified)
    have hrest : rest.flatMap s.notices = [] ∧
        ∀ i ∈ s.thrower raises msg, (s.notices msg).length ≤ i + 1 := by
      cases hth : s.thrower raises msg with
      | none =>
        rw [hth] at htail
        exact ⟨List.self_eq_append_right.mp htail, by simp⟩
      | some i =>
        rw [hth] at htail
        obtain ⟨hle, hnil⟩ := take_eq_append htail
        refine ⟨hnil, fun j hj => ?_⟩
        cases hj
        exact hle
    refine ⟨(hpending msg).mp (hall.settled msg (by simp)), hrest.2, fun m hm => ?_⟩
    refine ⟨(hpending m).mp (hall.settled m (by simp [hm])), hkeys m hm, ?_⟩
    exact List.flatMap_eq_nil_iff.mp hrest.1 m hm
  · intro ⟨hmsg, hlast, hrest⟩
    refine ⟨fun m hm => ?_, ?_, ?_, ?_⟩
    · rcases List.mem_append.mp hm with hm | hm
      · exact fun id hid => h.answered id ⟨m, hm, hid⟩
      · refine (hpending m).mpr ?_
        rcases List.mem_cons.mp hm with hm | hm
        · exact hm ▸ hmsg
        · exact (hrest m hm).1
    · rw [hsplit, requestKeys_append _ (before ++ [msg]),
        (requestKeys_eq_nil c _ rest).mpr fun m hm => (hrest m hm).2.1, List.append_nil]
      exact h.requests
    · have hnone : rest.filterMap s.invocation = [] :=
        List.filterMap_eq_nil_iff.mpr fun m hm => invocation_eq_none (hrest m hm).2.1
      rw [hsplit, List.filterMap_append, hnone, List.append_nil]
      exact h.invoked
    · have hnone : rest.flatMap s.notices = [] :=
        List.flatMap_eq_nil_iff.mpr fun m hm => (hrest m hm).2.2
      rw [h.notified, List.flatMap_append, List.flatMap_cons, hnone, List.append_nil]
      cases hth : s.thrower raises msg with
      | none => rfl
      | some i =>
        dsimp only
        rw [List.take_of_length_le (hlast i hth)]

/-! ### Whole chunks -/

theorem dispatchAll_nil {host : Host} {raises : ℕ → ℕ → Bool} {s : Bridge}
    (h : s.receiver.inbox = []) (n j : ℕ) : s.dispatchAll host raises n j = s := by
  cases n with
  | zero => rfl
  | succ n =>
    unfold dispatchAll
    rw [h]

theorem dispatchAll_cons {host : Host} {raises : ℕ → ℕ → Bool} {s u : Bridge} {msg : JsValue}
    {rest : List JsValue} (h : u.receiver.inbox = msg :: rest)
    (hn : u.notifyHandlers = s.notifyHandlers) (n j : ℕ) :
    u.dispatchAll host raises (n + 1) j =
      (u.dispatch host (s.thrower (raises j) msg)).dispatchAll host raises n (j + 1) := by
  rw [dispatchAll, h, ← thrower_congr hn]

/-- The induction is on what is left of the chunk, from a state in which what came before has been
handled in full. -/
theorem handledAll_from {host : Host} {raises : ℕ → ℕ → Bool} {s : Bridge} {c : ℕ}
    (rest : List JsValue) : ∀ {before : List JsValue} {u : Bridge}, s.After u c before →
      u.receiver.inbox = rest →
      (s.HandledAll (u.dispatchAll host raises rest.length before.length) c (before ++ rest) ↔
        s.LosesNothing host raises before rest) := by
  induction rest with
  | nil =>
    intro before u h hin
    rw [dispatchAll_nil hin, List.append_nil]
    refine iff_of_true ⟨fun msg hm id hid => ?_, h.requests, h.invoked, h.notified⟩ trivial
    exact h.answered id ⟨msg, hm, hid⟩
  | cons msg rest ih =>
    intro before u h hin
    rw [List.length_cons, dispatchAll_cons hin h.notifyHandlers, LosesNothing]
    by_cases hthrows : s.throwsOn host (raises before.length) msg = true
    · obtain ⟨hcut, hempty⟩ := cut_dispatch h hin hthrows
      rw [dispatchAll_nil hempty, if_pos hthrows]
      exact handledAll_of_cut hcut
    · obtain ⟨hafter, hrest⟩ := after_dispatch h hin (by simpa using hthrows)
      have hih := ih hafter hrest
      rw [List.length_append, List.append_assoc] at hih
      rw [if_neg hthrows]
      exact hih

/-- A chunk is handled in full exactly when nothing is left to do at the first exception. -/
theorem handledAll_iff (host : Host) (raises : ℕ → ℕ → Bool) (s : Bridge) (c : ℕ) (chunk : Bytes) :
    s.HandledAll (s.handleChunk host raises c chunk) c (s.receiver.decoder.feed host.mp chunk).1 ↔
      s.LosesNothing host raises [] (s.receiver.decoder.feed host.mp chunk).1 := by
  have hrefl : s.After (s.onData host c chunk) c [] :=
    ⟨rfl, rfl, rfl, by simp, fun _ _ => rfl, (List.append_nil _).symm, (List.append_nil _).symm,
      (List.append_nil _).symm⟩
  exact handledAll_from (s.receiver.decoder.feed host.mp chunk).1 hrefl rfl

/-- The loop is a run of the bridge. -/
theorem dispatchAll_reach {host : Host} {raises : ℕ → ℕ → Bool} (n : ℕ) :
    ∀ {s : Bridge} (j : ℕ), (machine host).Reach always s →
      (machine host).Reach always (s.dispatchAll host raises n j) := by
  induction n with
  | zero => exact fun _ h => h
  | succ n ih =>
    intro s j h
    rw [dispatchAll]
    split
    · exact h
    next msg rest hin =>
      refine ih (j + 1) (h.take (.dispatch _) ?_ trivial)
      simp [enabled, quiet, hin]

theorem handleChunk_reach {host : Host} {raises : ℕ → ℕ → Bool} {s : Bridge} {c : ℕ} {chunk : Bytes}
    (h : (machine host).Reach always s) (hdata : s.enabled (.data c chunk) = true) :
    (machine host).Reach always (s.handleChunk host raises c chunk) :=
  dispatchAll_reach _ 0 (h.take (.data c chunk) hdata trivial)

/-- A handler subscribes to a method and throws. -/
def buttonRun : List Event :=
  [.onNotify "button" 7, .data 0 [0x94, 1, 1, 0xc0, 0xc3], .dispatch none, .resumeCall 0,
    .resumeRegistration 0, .callWithOptions "f" [] ⟨none, none⟩]

def buttonState : Bridge := (machine referenceHost).after always initial buttonRun

/-- A NOTIFY and, in the same chunk, the RESPONSE to a pending call. -/
def buttonChunk : Bytes :=
  [0x93, 2, 0xa6, 98, 117, 116, 116, 111, 110, 0x90, 0x94, 1, 2, 0xc0, 0xc3]

def buttonMessages : List JsValue :=
  (buttonState.receiver.decoder.feed referenceHost.mp buttonChunk).1

theorem buttonChunk_unanswered : ¬ ∀ (host : Host) (raises : ℕ → ℕ → Bool) (s : Bridge) (c : ℕ)
    (chunk : Bytes), (machine host).Reach always s → s.enabled (.data c chunk) = true →
    s.HandledAll (s.handleChunk host raises c chunk) c (s.receiver.decoder.feed host.mp chunk).1 := by
  intro hall
  have hbutton := hall referenceHost (fun _ h => decide (h = 7)) buttonState 0 buttonChunk
    ((Machine.Reach.init rfl).after buttonRun) (by decide +kernel)
  have hmessage : buttonMessages[1]?.bind answeredId = some 2 := by decide +kernel
  obtain ⟨msg, hmsg, hid⟩ := Option.bind_eq_some_iff.mp hmessage
  have hnone := (hbutton.settled msg (List.mem_of_getElem? hmsg) 2 hid).1
  have hsome : (buttonState.handleChunk referenceHost (fun _ h => decide (h = 7)) 0
      buttonChunk).calls.pending.get 2 ≠ none := by decide +kernel
  exact hsome hnone

/-! ### Subscribers of a reachable bridge -/

/-- A handler is in the set of a method at most once. -/
def Distinct (s : Bridge) : Prop := ∀ method l, s.notifyHandlers.get method = some l → l.Nodup

theorem distinct_set {s : Bridge} (h : s.Distinct) {method : String} {l : List ℕ} (hl : l.Nodup) :
    ∀ m l', (s.notifyHandlers.set method l).get m = some l' → l'.Nodup := by
  intro m l' hl'
  rcases InsertMap.get_set_eq_some hl' with ⟨-, hnew⟩ | ⟨-, hold⟩
  · rw [hnew]
    exact hl
  · exact h m l' hold

theorem distinct_subscribe {s : Bridge} (h : s.Distinct) (method : String) (handler : ℕ) :
    (s.subscribe method handler).Distinct := by
  have hset : ((s.notifyHandlers.get method).getD []).Nodup := by
    cases hget : s.notifyHandlers.get method with
    | none => exact List.nodup_nil
    | some l => exact h method l hget
  refine distinct_set h ?_
  split
  · exact hset
  next hnew =>
    refine List.nodup_append.mpr ⟨hset, List.nodup_singleton handler, ?_⟩
    intro x hx y hy
    rw [List.mem_singleton.mp hy]
    intro hxy
    exact hnew (hxy ▸ hx)

theorem distinct_onNotify {host : Host} {s : Bridge} (h : s.Distinct) (method : String)
    (handler : ℕ) : (s.onNotify host method handler).Distinct := by
  have hempty : Distinct { s with notifyHandlers := s.notifyHandlers.set method [] } :=
    distinct_set h List.nodup_nil
  unfold onNotify
  split
  · exact distinct_subscribe h method handler
  · dsimp only
    split
    · exact distinct_subscribe hempty method handler
    · exact hempty

theorem distinct_resumeRegistration {s : Bridge} (h : s.Distinct) (g : ℕ) :
    (s.resumeRegistration g).Distinct := by
  unfold resumeRegistration
  split
  · exact h
  · split <;> exact h
  · split
    · exact distinct_subscribe (s := s.registered g) h _ _
    · exact h

theorem distinct_apply {host : Host} {s : Bridge} (h : s.Distinct) (e : Event) :
    (s.apply host e).Distinct := by
  cases e with
  | provide method handler =>
    change (s.provide host method handler).Distinct
    unfold provide
    split <;> exact h
  | onNotify method handler => exact distinct_onNotify h method handler
  | unsubscribe method handler =>
    change (s.unsubscribe method handler).Distinct
    unfold unsubscribe
    split
    · exact h
    next l hget => exact distinct_set h ((h method l hget).filter _)
  | close =>
    change (s.close host).Distinct
    unfold close
    dsimp only
    split <;> exact h
  | dispatch thrower =>
    change (s.dispatch host thrower).Distinct
    unfold dispatch
    split
    · dsimp only
      split <;> exact fun m l hl => h m l ((handleMessage_tables ..).2 ▸ hl)
    · exact h
  | resumeRegistration g => exact distinct_resumeRegistration h g
  | resumeReplay r =>
    have hnext : ∀ (u : Bridge) todo, u.Distinct → (u.replayNext host r todo).Distinct := by
      intro u todo hu
      cases todo <;> exact hu
    change (s.resumeReplay host r).Distinct
    have hr := resumes host s r
    generalize s.resumeReplay host r = t at hr ⊢
    cases hr with
    | dialed => exact hnext _ _ h
    | next => exact hnext _ _ h
    | _ => exact h
  | resumeClose x =>
    change (s.resumeClose x).Distinct
    unfold resumeClose
    split <;> exact h
  | _ => exact h

/-- So a NOTIFY asks for one invocation of each of its subscribers. -/
theorem notices_nodup {host : Host} {s : Bridge} (h : (machine host).Reach always s)
    (msg : JsValue) : (s.notices msg).Nodup := by
  have hdistinct : s.Distinct := by
    refine h.invariant (P := Distinct) (fun u hu => ?_) fun u e v _ hi hs _ => ?_
    · have hu : u = initial := hu
      rw [hu]
      intro m l hl
      contradiction
    · obtain ⟨-, rfl⟩ := Machine.ofEnabled_step.mp hs
      exact distinct_apply hi e
  have hsubscribers : ∀ method, (s.subscribers method).Nodup := by
    intro method
    unfold subscribers
    cases hget : (methodName method).bind s.notifyHandlers.get with
    | none => exact List.nodup_nil
    | some l =>
      obtain ⟨name, -, hl⟩ := Option.bind_eq_some_iff.mp hget
      exact hdistinct name l hl
  unfold notices
  split
  · split
    · exact (hsubscribers _).map fun a b hab => (Prod.mk.inj hab).1
    · exact List.nodup_nil
  · exact List.nodup_nil

end Bridge

end UnoQ.Client
