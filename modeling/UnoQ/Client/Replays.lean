import UnoQ.Client.Closing
import UnoQ.Client.OneLink
import UnoQ.Client.Record

/-!
# The replay of the registrations

After a reconnect the bridge registers the methods of its two tables again, one `$/register` after the
other, and then emits 'reconnect'. A drop in between makes the rest of the loop fail at once, and the
event comes all the same. The bridge is taken together with a record of its replays: the connection and
the methods that each began with, the calls that it has made and the methods that its 'error' events
have named.
-/

namespace UnoQ.Client
open Codec Transition

/-- A replay: what it began with, its `$/register` calls by method, and what it reported. -/
structure Round where
  conn : Option ℕ
  names : List String
  calls : List (String × ℕ)
  reported : List String

def Round.none : Round := ⟨Option.none, [], [], []⟩

structure Replays where
  bridge : Bridge
  rounds : ℕ → Round

namespace Bridge

def failed (s : Bridge) (k : ℕ) : Bool :=
  match s.outcome k with
  | some (.failure _) => true
  | _ => false

/-- What a replay has still to register when it goes on, if it does. -/
def upcoming (s : Bridge) (r : ℕ) : Option (List String) :=
  match s.replays r with
  | .idle => none
  | .dialed => some s.methods
  | .registering todo k => if s.failed k && !s.errorListener then none else some todo
  | .returned | .threw => none

/-- The method that the replay registers next. -/
def next (s : Bridge) (r : ℕ) : Option String := (s.upcoming r).bind List.head?

/-- The `reconnect` event of a replay comes with this step. -/
def emits (s : Bridge) : Event → Option ℕ
  | .resumeReplay r => if s.replays r = .returned then some r else none
  | _ => none

end Bridge

def Replay.registers : Replay → Bool
  | .registering _ _ => true
  | _ => false

namespace Replays
open Bridge

def initial : Replays := ⟨Bridge.initial, fun _ => .none⟩

/-- A replay goes on: its first step takes down the connection and the methods. -/
def goOn (s : Replays) (r : ℕ) : Round :=
  let b := s.bridge
  let begun := (b.next r).toList.map fun m => (m, b.calls.nextCall)
  match b.replays r with
  | .idle => s.rounds r
  | .dialed => ⟨b.service.link.socket, b.providers.keys ++ b.notifyHandlers.keys, begun, []⟩
  | .registering _ k =>
    { s.rounds r with
      calls := (s.rounds r).calls ++ begun
      reported :=
        if b.failed k && b.errorListener then
          (s.rounds r).reported ++ ((s.rounds r).calls.filter (·.2 = k)).map Prod.fst
        else (s.rounds r).reported }
  | .returned | .threw => s.rounds r

def notes (s : Replays) : Event → ℕ → Round
  | .resumeReplay r => Function.update s.rounds r (s.goOn r)
  | _ => s.rounds

def step (host : Host) (s : Replays) (e : Event) : Option Replays :=
  ((Bridge.machine host).step s.bridge e).map fun bridge => ⟨bridge, s.notes e⟩

def machine (host : Host) : Machine Replays Event where
  init s := s = initial
  step := step host

end Replays

namespace Bridge

/-- The call is a `$/register` for the method that is written once, and on this connection. -/
structure SentOnce (s : Bridge) (c : ℕ) (m : String) (k : ℕ) : Prop where
  register : (s.calls.calls k).method = "$/register" ∧ (s.calls.calls k).params = [.str m]
  once : s.calls.log.countP (·.writes k) = 1
  frame : ∃ a id, .wrote k a id ∈ s.calls.log ∧
    ⟨c, request id "$/register" [.str m], none⟩ ∈ s.service.link.sent

end Bridge

namespace Replays
open Bridge

/-- What callers take 'reconnect' for. -/
structure Complete (s : Replays) (r : ℕ) : Prop where
  connected : s.bridge.calls.connected = true
  carried : ∃ c, (s.rounds r).conn = some c ∧ s.bridge.service.link.IsOpen c ∧
    ∀ m ∈ (s.rounds r).names, ∃ k, (s.rounds r).calls.filter (·.1 = m) = [(m, k)] ∧
      s.bridge.SentOnce c m k ∧
      (s.bridge.calls.acknowledged k = true ∨ m ∈ (s.rounds r).reported)

/-- No connection ends while a replay awaits an answer, and a replay that has a method to register finds
that the connection it began with is the one in use, and can be written to. -/
def Unbroken : Guard Replays Event := fun s e _ =>
  match e with
  | .closed _ => ∀ r < s.bridge.nextReplay, (s.bridge.replays r).registers = false
  | .resumeReplay r => (s.bridge.next r).isSome = true → s.bridge.service.link.writable = (s.goOn r).conn
  | _ => True

instance : ∀ s e t, Decidable (Unbroken s e t) := by
  rintro s (_ | _) t <;> dsimp only [Unbroken] <;> infer_instance

end Replays

/-- A REQUEST with one text as its parameter can be encoded. -/
def EncodesRegister (mp : Msgpack) : Prop :=
  ∀ id m, (mp.encode (request id "$/register" [.str m])).isSome = true

/-! ### A call that was sent -/

namespace Calls

theorem attempt_wrote {mp : Msgpack} {c : Calls} {k : ℕ} (hconn : c.connected = true)
    (henc : (mp.encode (request (nextMsgId c.msgid) (c.calls k).method (c.calls k).params)).isSome = true) :
    .wrote k c.nextAttempt (nextMsgId c.msgid) ∈ (c.attempt mp k).log ∧ c.outgoing mp k =
      some (request (nextMsgId c.msgid) (c.calls k).method (c.calls k).params) := by
  obtain ⟨bs, hbs⟩ := Option.isSome_iff_exists.mp henc
  refine ⟨?_, if_pos ⟨hconn, henc⟩⟩
  simp [attempt, hconn, encodeRequest, hbs, enter]

end Calls

namespace Bridge

/-- What is known for good of a `$/register` once it has gone out on the connection. -/
structure Sent (s : Bridge) (c : ℕ) (m : String) (k : ℕ) : Prop where
  born : k < s.calls.nextCall
  method : (s.calls.calls k).method = "$/register"
  params : (s.calls.calls k).params = [.str m]
  single : (s.calls.calls k).idempotent = false
  frame : ∃ a id, .wrote k a id ∈ s.calls.log ∧
    ⟨c, request id "$/register" [.str m], none⟩ ∈ s.service.link.sent

theorem Sent.later {s t : Bridge} {c k : ℕ} {m : String} (h : s.Sent c m k)
    (hkeeps : s.calls.Keeps t.calls) (hsent : s.service.link.sent <+: t.service.link.sent) :
    t.Sent c m k := by
  obtain ⟨hm, hp, hi⟩ := hkeeps.call k h.born
  obtain ⟨a, id, hwrote, hframe⟩ := h.frame
  exact {
    born := Nat.lt_of_lt_of_le h.born hkeeps.born
    method := hm.trans h.method
    params := hp.trans h.params
    single := hi.trans h.single
    frame := ⟨a, id, hkeeps.log.subset hwrote, hsent.subset hframe⟩ }

theorem Sent.sentOnce {s : Bridge} {c k : ℕ} {m : String} (h : s.Sent c m k) (hi : s.calls.Inv) :
    s.SentOnce c m k := by
  obtain ⟨a, id, hwrote, hframe⟩ := h.frame
  have hpos : 0 < s.calls.log.countP (·.writes k) :=
    List.countP_pos_iff.mpr ⟨_, hwrote, by simp⟩
  have hle := hi.frames k h.single
  exact ⟨⟨h.method, h.params⟩, by omega, a, id, hwrote, hframe⟩

/-- A call that finds the connection usable goes out at once. -/
theorem sent_call {host : Host} (henc : EncodesRegister host.mp) {s : Bridge} {c : ℕ}
    (hconn : s.calls.connected = true) (hw : s.service.link.writable = some c) (m : String) :
    (s.call host "$/register" [.str m]).Sent c m s.calls.nextCall := by
  let started := s.calls.invoke "$/register" [.str m] ⟨none, none⟩
  let k := s.calls.nextCall
  have hcall : started.calls k = ⟨"$/register", [.str m], DEFAULT_TIMEOUT_MS, false,
      s.calls.now + DEFAULT_TIMEOUT_MS, .unused⟩ := Function.update_self ..
  have hborn : k < started.nextCall := Nat.lt_succ_self _
  have hmessage : (host.mp.encode (request (nextMsgId started.msgid) (started.calls k).method
      (started.calls k).params)).isSome = true := by
    rw [hcall]
    exact henc _ m
  obtain ⟨hwrote, hout⟩ := Calls.attempt_wrote (c := started) hconn hmessage
  obtain ⟨hmethod, hparams, hsingle⟩ := (Calls.keeps_attempt host.mp started k).call k hborn
  have hlink : (s.call host "$/register" [.str m]).service.link.sent = s.service.link.sent ++
      [⟨c, request (nextMsgId started.msgid) "$/register" [.str m], none⟩] := by
    change (s.service.post (started.outgoing host.mp k)).link.sent = _
    rw [hout, hcall]
    change (s.service.link.write _ none).sent = _
    unfold Link.write
    rw [hw]
  exact {
    born := Nat.lt_of_lt_of_le hborn (Calls.keeps_attempt host.mp started k).born
    method := hmethod.trans (by rw [hcall])
    params := hparams.trans (by rw [hcall])
    single := hsingle.trans (by rw [hcall])
    frame := by
      refine ⟨_, _, hwrote, ?_⟩
      rw [hlink]
      exact List.mem_append_right _ (List.mem_singleton_self _) }

/-! ### What a step leaves of a connection -/

theorem sent_moves {host : Host} {s u : Bridge} {e : Event} (hm : Moves host s e u) :
    u.service.link.sent = s.service.link.sent := by
  cases hm with
  | shut hc =>
    rw [closeTransport_link, Link.close_sent]
    rfl
  | tearDown x k hx => rw [closeTransport_link, Link.close_sent]
  | closed c hidle hc => exact Link.closed_sent ..
  | refused r hidle hr => exact Link.refused_sent ..
  | caught r hr => exact Link.caught_sent ..
  | _ => rfl

theorem sent_apply {host : Host} {s : Bridge} {e : Event} (he : s.enabled e = true) :
    s.service.link.sent <+: (s.apply host e).service.link.sent := by
  obtain ⟨u, hm, hp⟩ := moves_apply host he
  obtain ⟨more, hmore⟩ := hp.link
  rw [hmore, ← sent_moves hm]
  exact List.prefix_append _ _

theorem isOpen_moves {host : Host} {s u : Bridge} {e : Event} (hi : s.service.link.Inv)
    (hm : Moves host s e u) (hne : ∀ d, e ≠ .closed d) {c : ℕ} (hc : s.service.link.IsOpen c) :
    u.service.link.IsOpen c := by
  cases hm with
  | shut hdown =>
    unfold Link.IsOpen
    rw [closeTransport_link, (Link.close_conns _ c).1]
    exact hc
  | tearDown x k hx =>
    unfold Link.IsOpen
    rw [closeTransport_link, (Link.close_conns _ c).1]
    exact hc
  | broken d destroyed hidle hd => exact (s.service.link.broken_status d c destroyed).trans hc
  | closed d hidle hd => exact absurd rfl (hne d)
  | opened r hidle hr =>
    have hold : c ≠ s.service.link.nextConn := Nat.ne_of_lt (hi.lt_nextConn hc)
    change (s.service.link.opened r).IsOpen c
    unfold Link.IsOpen
    rw [Link.opened_conns, if_neg hold]
    exact hc
  | refused r hidle hr =>
    change (s.service.link.refused host.options s.calls.now r s.errorListener).IsOpen c
    rw [Link.refused_eq]
    exact hc
  | caught r hr =>
    change (s.service.link.caught host.options s.calls.now s.errorListener).IsOpen c
    rw [Link.caught_eq]
    exact hc
  | _ => exact hc

theorem isOpen_apply {host : Host} {s : Bridge} {e : Event} (hi : s.service.link.Inv)
    (he : s.enabled e = true) (hne : ∀ d, e ≠ .closed d) {c : ℕ} (hc : s.service.link.IsOpen c) :
    (s.apply host e).service.link.IsOpen c := by
  obtain ⟨u, hm, hp⟩ := moves_apply host he
  rw [hp.link_eq]
  exact isOpen_moves hi hm hne hc

theorem connected_apply {host : Host} {s : Bridge} {e : Event} (he : s.enabled e = true)
    (hne : ∀ d, e ≠ .closed d) (hc : s.calls.connected = true) :
    (s.apply host e).calls.connected = true := by
  obtain ⟨u, hm, hp⟩ := moves_apply host he
  rw [hp.connected]
  cases hm with
  | closed d hidle hd => exact absurd rfl (hne d)
  | connected r replay hr hnot => rfl
  | _ => exact hc

/-- Only its own steps take a replay on, once its connection is there. -/
theorem replay_apply {host : Host} {s : Bridge} {e : Event} (he : s.enabled e = true) {r : ℕ}
    {replay : Replay} (hne : e ≠ .resumeReplay r) (hreplay : replay ≠ .dialed)
    (hr : (s.apply host e).replays r = replay) : s.replays r = replay := by
  obtain ⟨u, hm, hp⟩ := moves_apply host he
  rw [hp.replays] at hr
  have hset : ∀ (v : Bridge) (x : ℕ) (new : Replay), v.replays = s.replays →
      (v.setReplay x new).replays r = replay → r ≠ x → s.replays r = replay := by
    intro v x new hv hx hrx
    rw [setReplay_replays, if_neg hrx, hv] at hx
    exact hx
  cases hm with
  | opened x hidle hx =>
    change (Bridge.setReplay _ x .dialed).replays r = _ at hr
    refine hset _ x .dialed rfl hr fun hrx => hreplay ?_
    rw [setReplay_replays, if_pos hrx] at hr
    exact hr.symm
  | connected x new hx hnot => exact hset _ x new rfl hr fun hrx => hne (by rw [hrx])
  | replay x new hx hd hnot => exact hset s x new rfl hr fun hrx => hne (by rw [hrx])
  | caught x hx => exact hset (s.caught host) x .idle rfl hr fun hrx => hne (by rw [hrx])
  | _ => exact hr

theorem failed_iff {s : Bridge} {k : ℕ} :
    s.failed k = true ↔ ∃ err, s.outcome k = some (.failure err) := by
  unfold failed
  split
  next err h => simp [h]
  next h => simpa using fun err => h err

theorem upcoming_dialed {s : Bridge} {r : ℕ} (hr : s.replays r = .dialed) :
    s.upcoming r = some s.methods := by
  unfold upcoming
  rw [hr]

/-- A replay with a failed call goes on only when the failure can be reported. -/
theorem upcoming_registering {s : Bridge} {r k : ℕ} {todo : List String}
    (hr : s.replays r = .registering todo k) (hheard : s.failed k = true → s.errorListener = true) :
    s.upcoming r = some todo := by
  unfold upcoming
  rw [hr]
  by_cases hfailed : s.failed k = true
  · simp [hfailed, hheard hfailed]
  · simp [hfailed]

theorem methods_nodup (s : Bridge) : s.methods.Nodup := by
  refine List.nodup_append.mpr ⟨s.providers.nodup, s.notifyHandlers.nodup.filter _, ?_⟩
  intro m hm m' hm' heq
  subst heq
  have hprovided := InsertMap.mem_keys.mp hm
  have hnot := (List.mem_filter.mp hm').2
  rw [hprovided] at hnot
  contradiction

theorem mem_methods {s : Bridge} {m : String} (h : m ∈ s.providers.keys ++ s.notifyHandlers.keys) :
    m ∈ s.methods := by
  by_cases hprovided : s.providers.has m = true
  · exact List.mem_append_left _ (InsertMap.mem_keys.mpr hprovided)
  · rcases List.mem_append.mp h with hm | hm
    · exact List.mem_append_left _ hm
    · refine List.mem_append_right _ (List.mem_filter.mpr ⟨hm, ?_⟩)
      simp [hprovided]

/-! ### A replay on its connection -/

/-- A replay that is still on its connection `c`: the methods are those registered so far and those
that are still to come. -/
structure Carried (s : Bridge) (r : Round) (todo : List String) (c : ℕ) : Prop where
  conn : r.conn = some c
  isOpen : s.service.link.IsOpen c
  connected : s.calls.connected = true
  names : ∀ m ∈ r.names, m ∈ r.calls.map Prod.fst ++ todo
  nodup : (r.calls.map Prod.fst ++ todo).Nodup
  sent : ∀ p ∈ r.calls, s.Sent c p.1 p.2

/-- The answer to a `$/register` was a result, or was reported. -/
def Known (s : Bridge) (r : Round) (p : String × ℕ) : Prop :=
  s.calls.acknowledged p.2 = true ∨ p.1 ∈ r.reported

/-- The replay awaits the last of its calls. -/
def Awaits (s : Bridge) (r : Round) (todo : List String) (k : ℕ) : Prop :=
  ∃ c earlier m, s.Carried r todo c ∧ r.calls = earlier ++ [(m, k)] ∧ ∀ p ∈ earlier, s.Known r p

/-- The replay has come to its end on its connection. -/
def Registered (s : Bridge) (r : Round) : Prop :=
  ∃ c, s.Carried r [] c ∧ ∀ p ∈ r.calls, s.Known r p

theorem Carried.later {s t : Bridge} {r : Round} {todo : List String} {c : ℕ} (h : s.Carried r todo c)
    (hkeeps : s.calls.Keeps t.calls) (hsent : s.service.link.sent <+: t.service.link.sent)
    (hopen : ∀ c, s.service.link.IsOpen c → t.service.link.IsOpen c)
    (hconn : s.calls.connected = true → t.calls.connected = true) : t.Carried r todo c :=
  { h with
    isOpen := hopen c h.isOpen
    connected := hconn h.connected
    sent := fun p hp => (h.sent p hp).later hkeeps hsent }

theorem Known.later {s t : Bridge} {r : Round} {p : String × ℕ} (h : s.Known r p)
    (hkeeps : s.calls.Keeps t.calls) : t.Known r p := h.imp hkeeps.acknowledged id

theorem Awaits.later {s t : Bridge} {r : Round} {todo : List String} {k : ℕ} (h : s.Awaits r todo k)
    (hkeeps : s.calls.Keeps t.calls) (hsent : s.service.link.sent <+: t.service.link.sent)
    (hopen : ∀ c, s.service.link.IsOpen c → t.service.link.IsOpen c)
    (hconn : s.calls.connected = true → t.calls.connected = true) : t.Awaits r todo k := by
  obtain ⟨c, earlier, m, hc, hcalls, hknown⟩ := h
  exact ⟨c, earlier, m, hc.later hkeeps hsent hopen hconn, hcalls, fun p hp => (hknown p hp).later hkeeps⟩

theorem Registered.later {s t : Bridge} {r : Round} (h : s.Registered r)
    (hkeeps : s.calls.Keeps t.calls) (hsent : s.service.link.sent <+: t.service.link.sent)
    (hopen : ∀ c, s.service.link.IsOpen c → t.service.link.IsOpen c)
    (hconn : s.calls.connected = true → t.calls.connected = true) : t.Registered r := by
  obtain ⟨c, hc, hknown⟩ := h
  exact ⟨c, hc.later hkeeps hsent hopen hconn, fun p hp => (hknown p hp).later hkeeps⟩

/-- The replay makes its next call. -/
theorem awaits_call {host : Host} (henc : EncodesRegister host.mp) {s : Bridge} {r : Round}
    {m : String} {rest : List String} {d : ℕ} (h : s.Carried r (m :: rest) d)
    (hknown : ∀ p ∈ r.calls, s.Known r p) (hd : s.service.link.writable = some d) :
    (s.call host "$/register" [.str m]).Awaits
      { r with calls := r.calls ++ [(m, s.calls.nextCall)] } rest s.calls.nextCall := by
  have hkeeps : s.calls.Keeps (s.call host "$/register" [.str m]).calls :=
    Calls.keeps_callWithOptions ..
  obtain ⟨hreplays, -, -, -, hconnected, more, hlink⟩ :=
    samePhase_callWithOptions host s "$/register" [.str m] ⟨none, none⟩
  have hsent : s.service.link.sent <+: (s.call host "$/register" [.str m]).service.link.sent := by
    change _ <+: (s.callWithOptions host _ _ _).service.link.sent
    rw [hlink]
    exact List.prefix_append _ _
  have hsame : (r.calls ++ [(m, s.calls.nextCall)]).map Prod.fst ++ rest =
      r.calls.map Prod.fst ++ m :: rest := by
    rw [List.map_append, List.append_assoc]
    rfl
  refine ⟨d, r.calls, m, ?_, rfl, fun p hp => ?_⟩
  · exact {
      conn := h.conn
      isOpen := by
        change (s.callWithOptions host _ _ _).service.link.IsOpen d
        rw [hlink]
        exact h.isOpen
      connected := hconnected.trans h.connected
      names := fun x hx => hsame ▸ h.names x hx
      nodup := hsame ▸ h.nodup
      sent := fun p hp => by
        rcases List.mem_append.mp hp with hold | hnew
        · exact (h.sent p hold).later hkeeps hsent
        · rw [List.mem_singleton.mp hnew]
          exact sent_call henc h.connected hd m }
  · rcases hknown p hp with hack | hreported
    · exact Or.inl (hkeeps.acknowledged hack)
    · exact Or.inr hreported

end Bridge

namespace Replays
open Bridge

/-! ### A replay goes on -/

/-- Every replay that awaits an answer, or has had the last one, is still on its connection. -/
structure Followed (s : Replays) : Prop where
  registering : ∀ r todo k, s.bridge.replays r = .registering todo k →
    s.bridge.Awaits (s.rounds r) todo k
  returned : ∀ r, s.bridge.replays r = .returned → s.bridge.Registered (s.rounds r)

/-- The replay goes on from `b` with `todo`, and `round` is what it has done. -/
structure GoesOn (host : Host) (s : Replays) (r : ℕ) (todo : List String) (b : Bridge)
    (round : Round) : Prop where
  start : b = s.bridge ∨ b = s.bridge.connected
  carried : ∃ c, b.Carried round todo c
  known : ∀ p ∈ round.calls, b.Known round p
  resumes : s.bridge.resumeReplay host r = b.replayNext host r todo
  notes : s.goOn r = { round with
    calls := round.calls ++ todo.head?.toList.map fun m => (m, s.bridge.calls.nextCall) }

theorem GoesOn.link {host : Host} {s : Replays} {r : ℕ} {todo : List String} {b : Bridge}
    {round : Round} (h : s.GoesOn host r todo b round) :
    b.service.link.writable = s.bridge.service.link.writable ∧
      b.calls.nextCall = s.bridge.calls.nextCall := by
  rcases h.start with rfl | rfl
  · exact ⟨rfl, rfl⟩
  · exact ⟨rfl, rfl⟩

theorem goesOn_dialed (host : Host) {s : Replays} (hs : s.bridge.Shutting)
    (hi : s.bridge.service.link.Inv) {r : ℕ} (hr : s.bridge.replays r = .dialed) :
    s.GoesOn host r s.bridge.methods s.bridge.connected
      ⟨s.bridge.service.link.socket, s.bridge.providers.keys ++ s.bridge.notifyHandlers.keys, [], []⟩ := by
  obtain ⟨c, hsock, -⟩ := hs.dialed r hr
  constructor
  · exact Or.inr rfl
  · exact ⟨c, {
      conn := hsock
      isOpen := hi.socket c hsock
      connected := rfl
      names := fun m hm => mem_methods hm
      nodup := s.bridge.methods_nodup
      sent := fun p hp => absurd hp List.not_mem_nil }⟩
  · intro p hp
    exact absurd hp List.not_mem_nil
  · unfold resumeReplay
    rw [hr]
  · unfold goOn next
    dsimp only
    rw [hr, upcoming_dialed hr]
    rfl

theorem goesOn_registering (host : Host) {s : Replays} (hc : s.bridge.calls.Inv) {r k : ℕ}
    {todo : List String} (hr : s.bridge.replays r = .registering todo k)
    (hawaits : s.bridge.Awaits (s.rounds r) todo k) (hready : (s.bridge.outcome k).isSome = true)
    (hheard : s.bridge.failed k = true → s.bridge.errorListener = true) :
    s.GoesOn host r todo s.bridge { s.rounds r with
      reported :=
        if s.bridge.failed k && s.bridge.errorListener then
          (s.rounds r).reported ++ ((s.rounds r).calls.filter (·.2 = k)).map Prod.fst
        else (s.rounds r).reported } := by
  obtain ⟨c, earlier, m, hcarried, hcalls, hknown⟩ := hawaits
  constructor
  · exact Or.inl rfl
  · exact ⟨c, hcarried.conn, hcarried.isOpen, hcarried.connected, hcarried.names, hcarried.nodup,
      hcarried.sent⟩
  · intro p hp
    unfold Known
    dsimp only at hp ⊢
    rw [hcalls] at hp
    rcases List.mem_append.mp hp with hold | hlast
    · rcases hknown p hold with hack | hreported
      · exact Or.inl hack
      · refine Or.inr ?_
        split
        · exact List.mem_append_left _ hreported
        · exact hreported
    · rw [List.mem_singleton.mp hlast]
      obtain ⟨outcome, houtcome⟩ := Option.isSome_iff_exists.mp hready
      cases outcome with
      | result v =>
        refine Or.inl (Calls.acknowledged_of_result hc (v := v) ?_)
        unfold Bridge.outcome at houtcome
        split at houtcome
        next hpc =>
          cases houtcome
          exact hpc
        next => contradiction
      | failure err =>
        have hfailed : s.bridge.failed k = true := failed_iff.mpr ⟨err, houtcome⟩
        refine Or.inr ?_
        rw [if_pos (by simp [hfailed, hheard hfailed]), hcalls]
        refine List.mem_append_right _ (List.mem_map.mpr ⟨(m, k), ?_, rfl⟩)
        exact List.mem_filter.mpr ⟨List.mem_append_right _ (List.mem_singleton_self _), by simp⟩
  · unfold resumeReplay
    rw [hr]
    dsimp only
    cases houtcome : s.bridge.outcome k with
    | none => rfl
    | some outcome =>
      cases outcome with
      | result v => rfl
      | failure err =>
        have hfailed : s.bridge.failed k = true := failed_iff.mpr ⟨err, houtcome⟩
        exact if_pos (hheard hfailed)
  · unfold goOn next
    dsimp only
    rw [hr, upcoming_registering hr hheard]
    rfl

/-- A replay that is ready either goes on with what it has still to register, or awaits nothing any
more. -/
theorem goesOn_cases (host : Host) {s : Replays} (hs : s.bridge.Shutting)
    (hi : s.bridge.service.link.Inv) (hc : s.bridge.calls.Inv) (hf : s.Followed) {r : ℕ}
    (hready : s.bridge.replayReady r = true) :
    (∃ todo b round, s.bridge.upcoming r = some todo ∧ s.GoesOn host r todo b round) ∨
      (s.bridge.resumeReplay host r).replays r = .threw ∨
      (s.bridge.resumeReplay host r).replays r = .idle := by
  have hr := resumes host s.bridge r
  generalize hb : s.bridge.resumeReplay host r = b at hr ⊢
  cases hr with
  | idle hr =>
    unfold replayReady at hready
    rw [hr] at hready
    contradiction
  | dialed hr => exact .inl ⟨_, _, _, upcoming_dialed hr, goesOn_dialed host hs hi hr⟩
  | next todo k hr hl =>
    have hheard : s.bridge.failed k = true → s.bridge.errorListener = true := by
      intro hfailed
      obtain ⟨err, herr⟩ := failed_iff.mp hfailed
      exact hl err herr
    unfold replayReady at hready
    rw [hr] at hready
    exact .inl ⟨_, _, _, upcoming_registering hr hheard,
      goesOn_registering host hc hr (hf.registering r todo k hr) hready hheard⟩
  | throws => exact .inr (.inl ((setReplay_replays ..).trans (if_pos rfl)))
  | returned => exact .inr (.inr ((setReplay_replays ..).trans (if_pos rfl)))
  | caught => exact .inr (.inr ((setReplay_replays ..).trans (if_pos rfl)))

/-! ### Runs -/

theorem step_eq {host : Host} {s t : Replays} {e : Event} (hs : (machine host).step s e = some t) :
    s.bridge.enabled e = true ∧ t = ⟨s.bridge.apply host e, s.notes e⟩ := by
  obtain ⟨he, ht⟩ := Machine.ofEnabled_map.mp hs
  exact ⟨he, ht.symm⟩

theorem step_of_enabled {host : Host} {s : Replays} {e : Event} (he : s.bridge.enabled e = true) :
    (machine host).step s e = some ⟨s.bridge.apply host e, s.notes e⟩ :=
  Machine.ofEnabled_map.mpr ⟨he, rfl⟩

theorem bridge_reach {host : Host} {ok : Guard Replays Event} {s : Replays}
    (h : (machine host).Reach ok s) : (Bridge.machine host).Reach always s.bridge := by
  refine h.carried Replays.bridge (fun u hu => ?_) fun u e v hs => ?_
  · have hu : u = initial := hu
    rw [hu]
    rfl
  · obtain ⟨he, rfl⟩ := step_eq hs
    exact Machine.ofEnabled_step.mpr ⟨he, rfl⟩

/-- No connection ends under a replay that is followed. -/
theorem not_closed {s t : Replays} (hs : s.bridge.Shutting) {e : Event}
    (he : s.bridge.enabled e = true) (hg : Unbroken s e t) {r : ℕ}
    (hr : (s.bridge.replays r).registers = true ∨ s.bridge.replays r = .returned) (d : ℕ) :
    e ≠ .closed d := by
  rintro rfl
  have hidle : s.bridge.idle = true ∧ s.bridge.service.link.IsOpen d := by
    simpa [enabled, Link.IsOpen] using he
  rcases hr with hr | hr
  · have hlt : r < s.bridge.nextReplay := by
      refine hs.replays r fun hnone => ?_
      rw [hnone] at hr
      contradiction
    rw [hg r hlt] at hr
    contradiction
  · have hdue := hs.not_due hidle.1 r
    rw [hr] at hdue
    contradiction

theorem notes_other {s : Replays} {e : Event} {r : ℕ} (hne : e ≠ .resumeReplay r) :
    s.notes e r = s.rounds r := by
  cases e with
  | resumeReplay x =>
    have hrx : r ≠ x := fun h => hne (by rw [h])
    exact Function.update_of_ne hrx _ _
  | _ => rfl

/-- A replay goes on with its next method, or has had its last answer. -/
theorem followed_resume {host : Host} (henc : EncodesRegister host.mp) {s : Replays} {r : ℕ}
    {todo : List String} {b : Bridge} {round : Round} (hgo : s.GoesOn host r todo b round)
    (hw : todo ≠ [] → s.bridge.service.link.writable = (s.goOn r).conn) :
    (∀ rest k, (s.bridge.resumeReplay host r).replays r = .registering rest k →
      (s.bridge.resumeReplay host r).Awaits (s.goOn r) rest k) ∧
    ((s.bridge.resumeReplay host r).replays r = .returned →
      (s.bridge.resumeReplay host r).Registered (s.goOn r)) := by
  obtain ⟨c, hcarried⟩ := hgo.carried
  rw [hgo.resumes]
  cases todo with
  | nil =>
    have hset : (b.replayNext host r []).replays r = .returned :=
      (setReplay_replays ..).trans (if_pos rfl)
    refine ⟨fun rest k hr => ?_, fun _ => ?_⟩
    · rw [hset] at hr
      contradiction
    · have hround : s.goOn r = round := by
        rw [hgo.notes]
        change { round with calls := round.calls ++ [] } = round
        rw [List.append_nil]
      rw [hround]
      exact ⟨c, hcarried.later (Calls.Keeps.refl _) List.prefix_rfl (fun _ hopen => hopen) id, hgo.known⟩
  | cons m rest =>
    obtain ⟨hwritable, hnext⟩ := hgo.link
    have hset : (b.replayNext host r (m :: rest)).replays r = .registering rest b.calls.nextCall :=
      (setReplay_replays ..).trans (if_pos rfl)
    refine ⟨fun rest' k hr => ?_, fun hr => ?_⟩
    · rw [hset, Replay.registering.injEq] at hr
      obtain ⟨rfl, rfl⟩ := hr
      have hd : b.service.link.writable = some c := by
        rw [hwritable, hw (by simp), hgo.notes]
        exact hcarried.conn
      have hcall := awaits_call henc hcarried hgo.known hd
      rw [hgo.notes, ← hnext]
      exact hcall.later (Calls.Keeps.refl _) List.prefix_rfl (fun _ hopen => hopen) id
    · rw [hset] at hr
      contradiction

theorem followed_step {host : Host} (henc : EncodesRegister host.mp) {s t : Replays} {e : Event}
    (hs : s.bridge.Shutting) (hi : s.bridge.service.link.Inv) (hc : s.bridge.calls.Inv)
    (hf : s.Followed) (hstep : (machine host).step s e = some t) (hg : Unbroken s e t) :
    t.Followed := by
  obtain ⟨he, rfl⟩ := step_eq hstep
  have hkeeps := keeps_step host he
  have hsent : s.bridge.service.link.sent <+: (s.bridge.apply host e).service.link.sent := sent_apply he
  -- The replay that the step takes on.
  have hown : ∀ r, e = .resumeReplay r →
      (∀ todo k, (s.bridge.resumeReplay host r).replays r = .registering todo k →
        (s.bridge.resumeReplay host r).Awaits (s.goOn r) todo k) ∧
      ((s.bridge.resumeReplay host r).replays r = .returned →
        (s.bridge.resumeReplay host r).Registered (s.goOn r)) := by
    rintro r rfl
    have hready : s.bridge.quiet = true ∧ s.bridge.replayReady r = true := by
      simpa [enabled] using he
    rcases goesOn_cases host hs hi hc hf hready.2 with ⟨todo, b, round, hup, hgo⟩ | hthrew | hidle
    · refine followed_resume henc hgo fun hne => hg ?_
      unfold next
      rw [hup]
      cases todo with
      | nil => exact absurd rfl hne
      | cons m rest => rfl
    · rw [hthrew]
      exact ⟨fun _ _ hr => by contradiction, fun hr => by contradiction⟩
    · rw [hidle]
      exact ⟨fun _ _ hr => by contradiction, fun hr => by contradiction⟩
  constructor
  · intro r todo k hr
    by_cases hre : e = .resumeReplay r
    · subst hre
      change (s.bridge.resumeReplay host r).Awaits (Function.update s.rounds r (s.goOn r) r) todo k
      rw [Function.update_self]
      exact (hown r rfl).1 todo k hr
    · have hold := replay_apply he hre (by simp) hr
      have hopen := not_closed hs he hg (r := r) (.inl (by rw [hold]; rfl))
      change (s.bridge.apply host e).Awaits (s.notes e r) todo k
      rw [notes_other hre]
      exact (hf.registering r todo k hold).later hkeeps hsent
        (fun c hc => isOpen_apply hi he hopen hc) (connected_apply he hopen)
  · intro r hr
    by_cases hre : e = .resumeReplay r
    · subst hre
      change (s.bridge.resumeReplay host r).Registered (Function.update s.rounds r (s.goOn r) r)
      rw [Function.update_self]
      exact (hown r rfl).2 hr
    · have hold := replay_apply he hre (by simp) hr
      have hopen := not_closed hs he hg (r := r) (.inr hold)
      change (s.bridge.apply host e).Registered (s.notes e r)
      rw [notes_other hre]
      exact (hf.returned r hold).later hkeeps hsent (fun c hc => isOpen_apply hi he hopen hc)
        (connected_apply he hopen)

theorem followed_reach {host : Host} (henc : EncodesRegister host.mp) {s : Replays}
    (h : (machine host).Reach Unbroken s) : s.Followed := by
  refine h.invariant (P := Followed) (fun u hu => ?_) fun u e v hu hf hs hg => ?_
  · have hu : u = initial := hu
    rw [hu]
    exact ⟨fun r todo k hr => by contradiction, fun r hr => by contradiction⟩
  · have hb := bridge_reach hu
    exact followed_step henc (shutting_reach hb) (service_inv hb).link (calls_inv hb) hf hs hg

theorem emits_some {s : Bridge} {e : Event} {r : ℕ} (h : s.emits e = some r) :
    e = .resumeReplay r ∧ s.replays r = .returned := by
  unfold emits at h
  split at h
  next x =>
    split at h
    next hr =>
      cases h
      exact ⟨rfl, hr⟩
    next => contradiction
  next => contradiction

/-- A replay with nothing more to register has registered what it began with. -/
theorem complete_emit {host : Host} {s : Replays} {r : ℕ} (hc : s.bridge.calls.Inv)
    (hr : s.bridge.replays r = .returned) (h : s.bridge.Registered (s.rounds r)) :
    Complete ⟨s.bridge.resumeReplay host r, Function.update s.rounds r (s.goOn r)⟩ r := by
  obtain ⟨c, hcarried, hknown⟩ := h
  have hkeeps : s.bridge.calls.Keeps s.bridge.calls.emitReconnect := Calls.keeps_emitReconnect _
  have hi : s.bridge.calls.emitReconnect.Inv := Calls.inv_apply hc host.mp .emitReconnect rfl
  have hbridge : s.bridge.resumeReplay host r =
      { s.bridge with calls := s.bridge.calls.emitReconnect }.setReplay r .idle := by
    unfold resumeReplay
    rw [hr]
  have hround : Function.update s.rounds r (s.goOn r) r = s.rounds r := by
    rw [Function.update_self]
    unfold goOn
    dsimp only
    rw [hr]
  refine ⟨?_, c, ?_⟩
  · change (s.bridge.resumeReplay host r).calls.connected = true
    rw [hbridge]
    exact hcarried.connected
  · dsimp only
    rw [hround, hbridge]
    refine ⟨hcarried.conn, hcarried.isOpen, fun m hm => ?_⟩
    have hcalled := hcarried.names m hm
    have hnodup := hcarried.nodup
    rw [List.append_nil] at hcalled hnodup
    obtain ⟨p, hp, rfl⟩ := List.mem_map.mp hcalled
    have hsent : Sent ({ s.bridge with calls := s.bridge.calls.emitReconnect }.setReplay r .idle) c
        p.1 p.2 := (hcarried.sent p hp).later hkeeps List.prefix_rfl
    refine ⟨p.2, InsertMap.filter_key hnodup hp, hsent.sentOnce hi, ?_⟩
    exact (hknown p hp).imp hkeeps.acknowledged id

/-- When no connection ends under a replay, and each one it has to use is its own and usable, 'reconnect'
comes with all methods registered on the connection. -/
theorem complete_of_unbroken {host : Host} (henc : EncodesRegister host.mp) {s t : Replays} {e : Event}
    {r : ℕ} (h : (machine host).Reach Unbroken s) (hstep : (machine host).step s e = some t)
    (hr : s.bridge.emits e = some r) : t.Complete r := by
  obtain ⟨rfl, hreturned⟩ := emits_some hr
  obtain ⟨-, rfl⟩ := step_eq hstep
  exact complete_emit (calls_inv (bridge_reach h)) hreturned ((followed_reach henc h).returned r hreturned)

def twoProvided : List Event :=
  providing ++ [.provide "g" 8, .data 0 [0x94, 1, 2, 0xc0, 0xc3], .dispatch none, .resumeCall 1,
    .resumeRegistration 1, .listen true] ++ reconnecting

/-- The router turns the first method down, and acknowledges the second. -/
def answeredRun : List Event :=
  twoProvided ++ [.data 1 [0x94, 1, 3, 0xc3, 0xc0], .dispatch none, .resumeCall 2, .resumeReplay 0,
    .data 1 [0x94, 1, 4, 0xc0, 0xc3], .dispatch none, .resumeCall 3, .resumeReplay 0]

def answeredState : Replays := (machine referenceHost).after Unbroken initial answeredRun

theorem answeredRun_complete :
    answeredState.bridge.emits (.resumeReplay 0) = some 0 ∧
      Complete ⟨answeredState.bridge.apply referenceHost (.resumeReplay 0),
        answeredState.notes (.resumeReplay 0)⟩ 0 := by
  have hemits : answeredState.bridge.emits (.resumeReplay 0) = some 0 := by decide +kernel
  have hreach : (machine referenceHost).Reach Unbroken answeredState :=
    (Machine.Reach.init rfl).after answeredRun
  exact ⟨hemits, complete_of_unbroken (fun _ _ => rfl) hreach
    (step_of_enabled (by decide +kernel)) hemits⟩

/-- The connection is lost while the first answer is awaited: both calls fail, and both are reported. -/
def cutRun : List Event :=
  twoProvided ++ [.broken 1 true, .closed 1, .resumeCall 2, .resumeReplay 0, .resumeCall 3,
    .resumeReplay 0]

def cutState : Replays := (machine referenceHost).after always initial cutRun

theorem cutRun_incomplete : ¬ ∀ (host : Host) (s t : Replays) (e : Event) (r : ℕ),
    EncodesRegister host.mp → (machine host).Reach always s → (machine host).step s e = some t →
    s.bridge.emits e = some r → t.Complete r := by
  intro hall
  have hreach : (machine referenceHost).Reach always cutState :=
    (Machine.Reach.init rfl).after cutRun
  have hstep : (machine referenceHost).step cutState (.resumeReplay 0) = some
      ⟨cutState.bridge.apply referenceHost (.resumeReplay 0), cutState.notes (.resumeReplay 0)⟩ :=
    step_of_enabled (by decide +kernel)
  have hcomplete := hall referenceHost _ _ _ 0 (fun _ _ => rfl) hreach hstep (by decide +kernel)
  have hdown : (cutState.bridge.apply referenceHost (.resumeReplay 0)).calls.connected = false := by
    decide +kernel
  rw [show (cutState.bridge.apply referenceHost (.resumeReplay 0)).calls.connected = true from
    hcomplete.connected] at hdown
  contradiction

end Replays

end UnoQ.Client
