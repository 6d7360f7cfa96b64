import Mathlib.Data.List.Count
import UnoQ.Client.Link
import UnoQ.Lib.Transition

/-!
# Inbound requests

The half of `Bridge` that answers the router. A REQUEST for a provided method is put in
the in-flight table under its msgid and handed to the handler; whoever deletes the entry
may write the RESPONSE. The table knows nothing of connections, and an entry is deleted
before the RESPONSE is encoded.
-/

namespace UnoQ.Client
open Codec Transition

/-- How a handler settles: it returns a value, or throws something whose message `handleMessage` can
make out, or not. -/
inductive Outcome
  | returned (value : JsValue)
  | thrown (message : Option JsValue)

/-- The RESPONSE to a settled handler, when there is a message to put in it. -/
def Outcome.reply (msgid : JsValue) : Outcome → Option JsValue
  | .returned v => some (response msgid .null v)
  | .thrown (some message) => some (response msgid (.arr [.nat 1, message]) .null)
  | .thrown none => none

structure InFlight where
  msgid : JsValue
  method : String

/-- A handler invocation. `index` numbers its REQUEST and `since` the frames sent before it. -/
structure Task where
  conn : ℕ
  msgid : JsValue
  key : MapKey
  method : String
  params : JsValue
  handler : ℕ
  index : ℕ
  since : ℕ
  outcome : Option Outcome

def Task.unborn : Task := ⟨0, .null, .null, "", .null, 0, 0, 0, none⟩

/-- `requests` records the REQUESTs handled so far, by connection and id. -/
structure Service where
  link : Link
  inFlight : InsertMap MapKey InFlight
  tasks : ℕ → Task
  nextTask : ℕ
  requests : List (ℕ × MapKey)

namespace Service

def post (w : Service) : Option JsValue → Service
  | none => w
  | some message => { w with link := w.link.write message none }

def receive (w : Service) (c : ℕ) (msgid : JsValue) (method : String) (params : JsValue)
    (handler : ℕ) : Service :=
  let index := w.requests.length
  let key := msgid.mapKey index
  { w with
    inFlight := w.inFlight.set key ⟨msgid, method⟩
    tasks := Function.update w.tasks w.nextTask
      ⟨c, msgid, key, method, params, handler, index, w.link.sent.length, none⟩
    nextTask := w.nextTask + 1
    requests := w.requests ++ [(c, key)] }

def unregisteredReply (msgid : JsValue) (method : String) : JsValue :=
  response msgid (.arr [.nat 1, .str ("no handler registered for method: " ++ method)]) .null

/-- A REQUEST without a handler is answered at once, when its method can be put in a text. -/
def refuse (mp : Msgpack) (w : Service) (c : ℕ) (msgid : JsValue) (method : Option String) : Service :=
  let key := msgid.mapKey w.requests.length
  let w := { w with requests := w.requests ++ [(c, key)] }
  match method with
  | none => w
  | some text =>
    { w with link := w.link.send mp (unregisteredReply msgid text) (some (key, .unregistered)) }

/-- A result that cannot be encoded throws when its entry is already gone: the `catch` then finds
none and writes nothing. -/
def settle (mp : Msgpack) (w : Service) (t : ℕ) (outcome : Outcome) : Service :=
  let task := w.tasks t
  let w := { w with tasks := Function.update w.tasks t { task with outcome := some outcome } }
  match outcome.reply task.msgid with
  | none => w
  | some message =>
    if w.inFlight.has task.key then
      { w with
        inFlight := w.inFlight.delete task.key
        link := w.link.send mp message (some (task.key, .handler t)) }
    else w

def closingReply (e : InFlight) : JsValue :=
  response e.msgid (.arr [.nat 1, .str ("bridge closing while handling " ++ e.method)]) .null

def drain (mp : Msgpack) : List (MapKey × InFlight) → Link → Link
  | [], l => l
  | p :: rest, l => drain mp rest (l.send mp (closingReply p.2) (some (p.1, .closing)))

/-- The first steps of `close()`, up to the drain of the in-flight table. -/
def shut (mp : Msgpack) (w : Service) (connected : Bool) : Service :=
  let link := { w.link with closedByUs := true, reconnectTimer := none }
  if connected then
    { w with link := drain mp w.inFlight.entries link, inFlight := InsertMap.empty }
  else { w with link := link }

/-- `onTransportClose` clears the in-flight table. -/
def closed (options : ReconnectOptions) (w : Service) (c : ℕ) (now : ℤ) : Service :=
  { w with link := w.link.closed options now c, inFlight := InsertMap.empty }

/-! ### The machine -/

def initial : Service where
  link := .initial
  inFlight := InsertMap.empty
  tasks _ := .unborn
  nextTask := 0
  requests := []

inductive Event
  | write (message : JsValue)
  | receive (c : ℕ) (msgid : JsValue) (method : String) (params : JsValue) (handler : ℕ)
  | refuse (c : ℕ) (msgid : JsValue) (method : Option String)
  | settle (t : ℕ) (outcome : Outcome)
  | shut (connected : Bool)
  | close
  | doReconnect (r : ℕ)
  | opened (r : ℕ)
  | refused (r : ℕ) (now : ℤ) (listener : Bool)
  | caught (now : ℤ) (listener : Bool)
  | reconnected
  | closed (c : ℕ) (now : ℤ)
  | broken (c : ℕ) (destroyed : Bool)

/-- The steps that only write, take in or prepare, whatever becomes of them. -/
def Event.plain : Event → Bool
  | .write _ | .receive .. | .refuse .. | .doReconnect _ | .refused .. | .reconnected => true
  | _ => false

def isResponse : JsValue → Bool
  | .arr (.num (.int i) :: _) => i = MSG_RESPONSE
  | _ => false

def reads (w : Service) (c : ℕ) : Bool :=
  (w.link.conns c).status = .opened ∧ (w.link.conns c).destroyed = false

def enabled (w : Service) : Event → Bool
  | .write message => !isResponse message
  | .receive c _ _ _ _ => w.reads c
  | .refuse c _ _ => w.reads c
  | .settle t _ => t < w.nextTask ∧ (w.tasks t).outcome.isNone
  | .doReconnect _ => w.link.reconnectTimer.isSome
  | .opened r => r ∈ w.link.dialing
  | .refused r _ _ => r ∈ w.link.dialing
  | .closed c _ => (w.link.conns c).status = .opened
  | _ => true

def apply (mp : Msgpack) (options : ReconnectOptions) (w : Service) : Event → Service
  | .write message => w.post (some message)
  | .receive c msgid method params handler => w.receive c msgid method params handler
  | .refuse c msgid method => w.refuse mp c msgid method
  | .settle t outcome => w.settle mp t outcome
  | .shut connected => w.shut mp connected
  | .close => { w with link := w.link.close }
  | .doReconnect r => { w with link := w.link.doReconnect r }
  | .opened r => { w with link := w.link.opened r }
  | .refused r now listener => { w with link := w.link.refused options now r listener }
  | .caught now listener => { w with link := w.link.caught options now listener }
  | .reconnected => { w with link := { w.link with reconnectAttempt := 0 } }
  | .closed c now => w.closed options c now
  | .broken c destroyed => { w with link := w.link.broken c destroyed }

def machine (mp : Msgpack) (options : ReconnectOptions) : Machine Service Event :=
  .ofEnabled (· = initial) (fun w e => w.enabled e = true) (apply mp options)

/-! ### Requests and responses -/

end Service

def Frame.answers (c : ℕ) (m : MapKey) (f : Frame) : Bool :=
  f.conn = c ∧ f.response.map Prod.fst = some m

/-- The frame is a RESPONSE for the id, with a result or with an error `[1, text]`. -/
def Frame.IsResponse (f : Frame) (m : MapKey) : Prop :=
  ∃ (msgid : JsValue) (id : ℕ) (err result : JsValue),
    f.message = Codec.response msgid err result ∧ msgid.mapKey id = m ∧
    (err = .null ∨ ∃ text, err = .arr [.nat 1, text])

namespace Service

def responses (w : Service) (c : ℕ) (m : MapKey) : ℕ := w.link.sent.countP (·.answers c m)

structure TaskOk (w : Service) (t : ℕ) : Prop where
  request : w.requests[(w.tasks t).index]? = some ((w.tasks t).conn, (w.tasks t).key)
  key : (w.tasks t).key = (w.tasks t).msgid.mapKey (w.tasks t).index
  since : (w.tasks t).since ≤ w.link.sent.length
  conn : (w.tasks t).conn < w.link.nextConn

structure Inv (w : Service) : Prop where
  link : w.link.Inv
  busy : ∀ m, w.inFlight.get m ≠ none → ∃ c, w.link.IsOpen c
  entry : ∀ m e, w.inFlight.get m = some e → ∃ id, e.msgid.mapKey id = m
  frames : ∀ f ∈ w.link.sent, ∀ m author, f.response = some (m, author) → f.IsResponse m
  plain : ∀ f ∈ w.link.sent, f.response = none → isResponse f.message = false
  tasks : ∀ t, t < w.nextTask → w.TaskOk t
  ordered : ∀ t u, t < u → u < w.nextTask → (w.tasks t).index < (w.tasks u).index

theorem send_socket (mp : Msgpack) (l : Link) (message : JsValue)
    (response : Option (MapKey × Author)) :
    (l.send mp message response).socket = l.socket ∧
      (l.send mp message response).conns = l.conns ∧
      (l.send mp message response).nextConn = l.nextConn ∧
      l.sent <+: (l.send mp message response).sent := by
  rcases l.send_cases mp message response with he | ⟨d, -, he⟩
  · rw [he]
    exact ⟨rfl, rfl, rfl, List.prefix_rfl⟩
  · rw [he]
    exact ⟨rfl, rfl, rfl, List.prefix_append _ _⟩

theorem mem_send {mp : Msgpack} {l : Link} {message : JsValue} {k : MapKey} {author : Author}
    {f : Frame} (h : f ∈ (l.send mp message (some (k, author))).sent) :
    f ∈ l.sent ∨ (f.message = message ∧ f.response = some (k, author) ∧
      l.writable = some f.conn) := by
  rcases l.send_cases mp message (some (k, author)) with he | ⟨d, hd, he⟩
  · rw [he] at h
    exact Or.inl h
  · rw [he, List.mem_append, List.mem_singleton] at h
    rcases h with h | rfl
    · exact Or.inl h
    · exact Or.inr ⟨rfl, rfl, hd⟩

theorem frames_reply {l : Link} {k : MapKey} {message : JsValue}
    (hf : ∀ f ∈ l.sent, ∀ m author, f.response = some (m, author) → f.IsResponse m)
    (hmsg : ∃ msgid id err result, message = response msgid err result ∧ msgid.mapKey id = k ∧
      (err = .null ∨ ∃ text, err = .arr [.nat 1, text]))
    (mp : Msgpack) (author : Author) :
    ∀ f ∈ (l.send mp message (some (k, author))).sent, ∀ m a, f.response = some (m, a) →
      f.IsResponse m := by
  intro f hmem m a hr
  rcases mem_send hmem with h | ⟨h1, h2, -⟩
  · exact hf f h m a hr
  · rw [h2] at hr
    cases hr
    unfold Frame.IsResponse
    rw [h1]
    exact hmsg

theorem plain_reply {l : Link} {k : MapKey} {message : JsValue}
    (hp : ∀ f ∈ l.sent, f.response = none → isResponse f.message = false) (mp : Msgpack)
    (author : Author) : ∀ f ∈ (l.send mp message (some (k, author))).sent, f.response = none →
      isResponse f.message = false := by
  intro f hmem hr
  rcases mem_send hmem with h | ⟨-, h2, -⟩
  · exact hp f h hr
  · rw [h2] at hr
    contradiction

theorem reply_shape {msgid message : JsValue} {o : Outcome} (h : o.reply msgid = some message) :
    ∃ err result, message = response msgid err result ∧
      (err = .null ∨ ∃ text, err = .arr [.nat 1, text]) := by
  unfold Outcome.reply at h
  split at h
  next v =>
    cases h
    exact ⟨_, _, rfl, Or.inl rfl⟩
  next text =>
    cases h
    exact ⟨_, _, rfl, Or.inr ⟨text, rfl⟩⟩
  next => contradiction

/-! ### What the pieces of a step keep -/

theorem TaskOk.frame {w v : Service} {t : ℕ} (h : w.TaskOk t) (htask : v.tasks t = w.tasks t)
    {more : List (ℕ × MapKey)} (hreq : v.requests = w.requests ++ more)
    (hsent : w.link.sent.length ≤ v.link.sent.length) (hconn : w.link.nextConn ≤ v.link.nextConn) :
    v.TaskOk t := by
  constructor
  · rw [htask, hreq]
    have hlt := (List.getElem?_eq_some_iff.mp h.request).1
    rw [List.getElem?_append_left hlt]
    exact h.request
  · rw [htask]
    exact h.key
  · rw [htask]
    exact Nat.le_trans h.since hsent
  · rw [htask]
    exact Nat.lt_of_lt_of_le h.conn hconn

theorem inv_relink {w : Service} (h : w.Inv) (table : InsertMap MapKey InFlight) {l : Link}
    (hl : l.Inv) (hsent : l.sent = w.link.sent) (hnext : w.link.nextConn ≤ l.nextConn)
    (hsub : ∀ m e, table.get m = some e → w.inFlight.get m = some e ∧ ∃ c, l.IsOpen c) :
    ({ w with link := l, inFlight := table } : Service).Inv := by
  constructor
  · exact hl
  · intro m hm
    obtain ⟨e, he⟩ := Option.ne_none_iff_exists'.mp hm
    exact (hsub m e he).2
  · intro m e he
    exact h.entry m e (hsub m e he).1
  · change ∀ f ∈ l.sent, _
    rw [hsent]
    exact h.frames
  · change ∀ f ∈ l.sent, _
    rw [hsent]
    exact h.plain
  · intro t ht
    refine (h.tasks t ht).frame rfl (List.append_nil _).symm ?_ hnext
    change _ ≤ l.sent.length
    rw [hsent]
  · exact h.ordered

/-- Connections that are open stay open. -/
theorem inv_keep {w : Service} (h : w.Inv) {l : Link} (hl : l.Inv) (hsent : l.sent = w.link.sent)
    (hnext : w.link.nextConn ≤ l.nextConn) (hopen : ∀ c, w.link.IsOpen c → l.IsOpen c) :
    ({ w with link := l } : Service).Inv := by
  refine inv_relink h w.inFlight hl hsent hnext fun m e he => ⟨he, ?_⟩
  obtain ⟨c, hc⟩ := h.busy m (by simp [he])
  exact ⟨c, hopen c hc⟩

theorem inv_write {w : Service} (h : w.Inv) {message : JsValue} (hplain : isResponse message = false) :
    ({ w with link := w.link.write message none } : Service).Inv := by
  have hl := Link.inv_write h.link message none
  rcases w.link.write_cases message none with ⟨-, he⟩ | ⟨c, hc, he⟩
  · rw [he]
    exact h
  · rw [he] at hl ⊢
    constructor
    · exact hl
    · exact h.busy
    · exact h.entry
    · intro f hf m author hr
      change f ∈ w.link.sent ++ _ at hf
      rw [List.mem_append, List.mem_singleton] at hf
      rcases hf with hf | rfl
      · exact h.frames f hf m author hr
      · contradiction
    · intro f hf hr
      change f ∈ w.link.sent ++ _ at hf
      rw [List.mem_append, List.mem_singleton] at hf
      rcases hf with hf | rfl
      · exact h.plain f hf hr
      · exact hplain
    · intro t ht
      exact (h.tasks t ht).frame rfl (List.append_nil _).symm (by simp) (Nat.le_refl _)
    · exact h.ordered

theorem reads_iff (w : Service) (c : ℕ) :
    w.reads c = true ↔ w.link.IsOpen c ∧ (w.link.conns c).destroyed = false := by
  simp [reads, Link.IsOpen]

theorem receive_tasks (w : Service) (c : ℕ) (msgid : JsValue) (method : String) (params : JsValue)
    (handler t : ℕ) : (w.receive c msgid method params handler).tasks t =
      if t = w.nextTask then ⟨c, msgid, msgid.mapKey w.requests.length, method, params, handler,
        w.requests.length, w.link.sent.length, none⟩
      else w.tasks t :=
  Function.update_apply w.tasks w.nextTask _ t

theorem inv_receive {w : Service} (h : w.Inv) {c : ℕ} (hc : w.reads c = true) (msgid : JsValue)
    (method : String) (params : JsValue) (handler : ℕ) :
    (w.receive c msgid method params handler).Inv := by
  have hopen := ((w.reads_iff c).mp hc).1
  constructor
  · exact h.link
  · exact fun m _ => ⟨c, hopen⟩
  · intro m e he
    rcases InsertMap.get_set_eq_some he with ⟨rfl, rfl⟩ | ⟨-, hold⟩
    · exact ⟨_, rfl⟩
    · exact h.entry m e hold
  · exact h.frames
  · exact h.plain
  · intro t ht
    have ht' : t < w.nextTask + 1 := ht
    by_cases hnew : t = w.nextTask
    · have htask := w.receive_tasks c msgid method params handler t
      rw [if_pos hnew] at htask
      constructor
      · rw [htask]
        simp [receive]
      · rw [htask]
      · rw [htask]
        exact Nat.le_refl _
      · rw [htask]
        exact h.link.lt_nextConn hopen
    · refine (h.tasks t (by omega)).frame ?_ rfl (Nat.le_refl _) (Nat.le_refl _)
      rw [receive_tasks, if_neg hnew]
  · intro t u htu hu
    have hu' : u < w.nextTask + 1 := hu
    rw [receive_tasks, receive_tasks, if_neg (by omega)]
    split
    next =>
      have hok := h.tasks t (by omega)
      exact (List.getElem?_eq_some_iff.mp hok.request).1
    next => exact h.ordered t u htu (by omega)

theorem inv_refuse {w : Service} (h : w.Inv) (c : ℕ) (mp : Msgpack) (msgid : JsValue)
    (method : Option String) : (w.refuse mp c msgid method).Inv := by
  have hbase : ({ w with
      requests := w.requests ++ [(c, msgid.mapKey w.requests.length)] } : Service).Inv := by
    refine { h with tasks := fun t ht => ?_ }
    exact (h.tasks t ht).frame rfl rfl (Nat.le_refl _) (Nat.le_refl _)
  unfold refuse
  cases method with
  | none => exact hbase
  | some text =>
    dsimp only
    obtain ⟨-, hconns, hnext, hpre⟩ := send_socket mp w.link (unregisteredReply msgid text)
      (some (msgid.mapKey w.requests.length, .unregistered))
    constructor
    · exact Link.inv_send h.link mp _ _
    · intro m hm
      obtain ⟨d, hd⟩ := h.busy m hm
      refine ⟨d, ?_⟩
      unfold Link.IsOpen
      rw [hconns]
      exact hd
    · exact h.entry
    · exact frames_reply h.frames ⟨msgid, _, _, _, rfl, rfl, Or.inr ⟨_, rfl⟩⟩ mp .unregistered
    · exact plain_reply h.plain mp .unregistered
    · intro t ht
      exact (hbase.tasks t ht).frame rfl (List.append_nil _).symm hpre.length_le
        (Nat.le_of_eq hnext.symm)
    · exact h.ordered

theorem settle_tasks (mp : Msgpack) (w : Service) (t x : ℕ) (o : Outcome) :
    (w.settle mp t o).tasks x =
      if x = t then { w.tasks t with outcome := some o } else w.tasks x := by
  have h : (w.settle mp t o).tasks =
      Function.update w.tasks t { w.tasks t with outcome := some o } := by
    unfold settle
    dsimp only
    split
    · rfl
    · split <;> rfl
  rw [h, Function.update_apply]

theorem settle_cases (mp : Msgpack) (w : Service) (t : ℕ) (o : Outcome) :
    ((o.reply (w.tasks t).msgid = none ∨ w.inFlight.get (w.tasks t).key = none) ∧
      w.settle mp t o = { w with
        tasks := Function.update w.tasks t { w.tasks t with outcome := some o } }) ∨
    ∃ message, o.reply (w.tasks t).msgid = some message ∧
      w.inFlight.get (w.tasks t).key ≠ none ∧ w.settle mp t o = { w with
        tasks := Function.update w.tasks t { w.tasks t with outcome := some o }
        inFlight := w.inFlight.delete (w.tasks t).key
        link := w.link.send mp message (some ((w.tasks t).key, .handler t)) } := by
  unfold settle
  dsimp only
  cases hr : o.reply (w.tasks t).msgid with
  | none => exact Or.inl ⟨Or.inl rfl, rfl⟩
  | some message =>
    dsimp only
    by_cases hhas : w.inFlight.has (w.tasks t).key = true
    · rw [if_pos hhas]
      obtain ⟨e, he⟩ := InsertMap.has_eq_true.mp hhas
      exact Or.inr ⟨message, rfl, by simp [he], rfl⟩
    · rw [if_neg hhas]
      have hnone := InsertMap.has_eq_false.mp (Bool.not_eq_true _ ▸ hhas)
      exact Or.inl ⟨Or.inr hnone, rfl⟩

theorem inv_settle {w : Service} (h : w.Inv) (mp : Msgpack) {t : ℕ} (ht : t < w.nextTask)
    (o : Outcome) : (w.settle mp t o).Inv := by
  have hbase : ({ w with
      tasks := Function.update w.tasks t { w.tasks t with outcome := some o } } : Service).Inv := by
    have hsame : ∀ x, ∃ o', Function.update w.tasks t { w.tasks t with outcome := some o } x =
        { w.tasks x with outcome := o' } := by
      intro x
      rw [Function.update_apply]
      split
      next hx =>
        subst hx
        exact ⟨some o, rfl⟩
      next => exact ⟨(w.tasks x).outcome, rfl⟩
    refine { h with tasks := fun x hx => ?_, ordered := fun x y hxy hy => ?_ }
    · obtain ⟨o', ho⟩ := hsame x
      have hok := h.tasks x hx
      constructor
      · change w.requests[(Function.update w.tasks t _ x).index]? = _
        simp only [ho]
        exact hok.request
      · simp only [ho]
        exact hok.key
      · simp only [ho]
        exact hok.since
      · simp only [ho]
        exact hok.conn
    · obtain ⟨ox, hox⟩ := hsame x
      obtain ⟨oy, hoy⟩ := hsame y
      simp only [hox, hoy]
      exact h.ordered x y hxy hy
  rcases settle_cases mp w t o with ⟨-, he⟩ | ⟨message, hr, hget, he⟩
  · rw [he]
    exact hbase
  · rw [he]
    obtain ⟨-, hconns, hnext, hpre⟩ := send_socket mp w.link message
      (some ((w.tasks t).key, .handler t))
    obtain ⟨err, result, hm, herr⟩ := reply_shape hr
    constructor
    · exact Link.inv_send h.link mp _ _
    · intro m hm'
      obtain ⟨c, hc⟩ := h.busy _ hget
      refine ⟨c, ?_⟩
      unfold Link.IsOpen
      rw [hconns]
      exact hc
    · intro m e he'
      exact h.entry m e (InsertMap.get_delete_eq_some he').2
    · exact frames_reply h.frames
        ⟨(w.tasks t).msgid, _, err, result, hm, (h.tasks t ht).key.symm, herr⟩ mp (.handler t)
    · exact plain_reply h.plain mp (.handler t)
    · intro x hx
      exact (hbase.tasks x hx).frame rfl (List.append_nil _).symm hpre.length_le
        (Nat.le_of_eq hnext.symm)
    · exact hbase.ordered

theorem drain_spec (mp : Msgpack) (es : List (MapKey × InFlight)) :
    ∀ {l : Link}, (∀ p ∈ es, ∃ id, p.2.msgid.mapKey id = p.1) →
    (∀ f ∈ l.sent, ∀ m author, f.response = some (m, author) → f.IsResponse m) →
    (∀ f ∈ l.sent, f.response = none → isResponse f.message = false) → l.Inv →
    (drain mp es l).Inv ∧ (drain mp es l).nextConn = l.nextConn ∧
      l.sent <+: (drain mp es l).sent ∧
      (∀ f ∈ (drain mp es l).sent, ∀ m author, f.response = some (m, author) → f.IsResponse m) ∧
      ∀ f ∈ (drain mp es l).sent, f.response = none → isResponse f.message = false := by
  induction es with
  | nil =>
    intro l _ hf hp hi
    exact ⟨hi, rfl, List.prefix_rfl, hf, hp⟩
  | cons p rest ih =>
    intro l hkey hf hplain hi
    obtain ⟨-, -, hnext, hpre⟩ := send_socket mp l (closingReply p.2) (some (p.1, .closing))
    obtain ⟨id, hid⟩ := hkey p List.mem_cons_self
    have hshape : ∃ msgid id err result, closingReply p.2 = response msgid err result ∧
        msgid.mapKey id = p.1 ∧ (err = .null ∨ ∃ text, err = .arr [.nat 1, text]) :=
      ⟨p.2.msgid, id, _, _, rfl, hid, Or.inr ⟨_, rfl⟩⟩
    have hf' := frames_reply hf hshape mp .closing
    obtain ⟨h1, h2, h3, h4, h5⟩ := ih (fun q hq => hkey q (List.mem_cons_of_mem _ hq)) hf'
      (plain_reply hplain mp .closing) (Link.inv_send hi mp _ _)
    exact ⟨h1, h2.trans hnext, hpre.trans h3, h4, h5⟩

theorem inv_shut {w : Service} (h : w.Inv) (mp : Msgpack) (connected : Bool) :
    (w.shut mp connected).Inv := by
  have hlink : ({ w.link with closedByUs := true, reconnectTimer := none } : Link).Inv :=
    { h.link with }
  unfold shut
  dsimp only
  split
  · obtain ⟨h1, h2, h3, h4, h5⟩ := drain_spec mp w.inFlight.entries
      (l := { w.link with closedByUs := true, reconnectTimer := none })
      (fun p hp => h.entry p.1 p.2 ((InsertMap.get_eq_some_iff _).mpr hp)) h.frames h.plain hlink
    constructor
    · exact h1
    · intro m hm
      exact absurd (InsertMap.get_empty m) hm
    · intro m e he
      have hnone : (InsertMap.empty : InsertMap MapKey InFlight).get m = some e := he
      rw [InsertMap.get_empty] at hnone
      contradiction
    · exact h4
    · exact h5
    · intro t ht
      exact (h.tasks t ht).frame rfl (List.append_nil _).symm h3.length_le (Nat.le_of_eq h2.symm)
    · exact h.ordered
  · exact inv_keep h hlink rfl (Nat.le_refl _) fun c hc => hc

theorem inv_apply {w : Service} (h : w.Inv) (mp : Msgpack) (options : ReconnectOptions) (e : Event)
    (he : w.enabled e = true) : (w.apply mp options e).Inv := by
  cases e with
  | write message => exact inv_write h (by simpa [enabled] using he)
  | receive c msgid method params handler => exact inv_receive h he msgid method params handler
  | refuse c msgid method => exact inv_refuse h c mp msgid method
  | settle t o =>
    have ht : t < w.nextTask ∧ (w.tasks t).outcome.isNone := of_decide_eq_true he
    exact inv_settle h mp ht.1 o
  | shut connected => exact inv_shut h mp connected
  | close =>
    refine inv_keep h (Link.inv_close h.link) w.link.close_sent ?_ fun c hc => ?_
    · rw [Link.close_eq]
    · exact (w.link.close_conns c).1.trans hc
  | doReconnect r => exact inv_keep h { h.link with } rfl (Nat.le_refl _) fun c hc => hc
  | opened r =>
    refine inv_keep h (Link.inv_opened h.link r) rfl (Nat.le_succ _) fun c hc => ?_
    have hne : c ≠ w.link.nextConn := Nat.ne_of_lt (h.link.lt_nextConn hc)
    unfold Link.IsOpen
    rw [Link.opened_conns, if_neg hne]
    exact hc
  | refused r now listener =>
    have heq := Link.refused_eq options now w.link r listener
    refine inv_keep h (Link.inv_refused h.link options now r listener) (Link.refused_sent ..) ?_
      fun c hc => ?_
    · rw [heq]
    · rw [heq]
      exact hc
  | caught now listener =>
    have heq := Link.caught_eq options now w.link listener
    refine inv_keep h (Link.inv_caught h.link options now listener) (Link.caught_sent ..) ?_
      fun c hc => ?_
    · rw [heq]
    · rw [heq]
      exact hc
  | reconnected => exact inv_keep h { h.link with } rfl (Nat.le_refl _) fun c hc => hc
  | closed c now =>
    have hc : (w.link.conns c).status = .opened := of_decide_eq_true he
    refine inv_relink h InsertMap.empty (Link.inv_closed h.link options now hc) (Link.closed_sent ..) ?_
      fun m e hm => ?_
    · rw [Link.closed_eq]
    · rw [InsertMap.get_empty] at hm
      contradiction
  | broken c destroyed =>
    exact inv_keep h (Link.inv_broken h.link c destroyed) rfl (Nat.le_refl _)
      fun d hd => (w.link.broken_status c d destroyed).trans hd

theorem inv_initial : initial.Inv where
  link := Link.inv_initial
  busy := by
    intro m hm
    exact absurd (InsertMap.get_empty m) hm
  entry := by
    intro m e he
    rw [show initial.inFlight.get m = none from rfl] at he
    contradiction
  frames := by simp [initial, Link.initial]
  plain := by simp [initial, Link.initial]
  tasks := fun t ht => absurd ht (Nat.not_lt_zero t)
  ordered := fun _ u _ hu => absurd hu (Nat.not_lt_zero u)

theorem inv_reach {mp : Msgpack} {options : ReconnectOptions} {ok : Guard Service Event} {w : Service}
    (h : (machine mp options).Reach ok w) : w.Inv := by
  refine h.invariant ?_ ?_
  · rintro w rfl
    exact inv_initial
  · intro w e v _ hi hs _
    obtain ⟨he, rfl⟩ := Machine.ofEnabled_step.mp hs
    exact inv_apply hi mp options e he

end Service

end UnoQ.Client
