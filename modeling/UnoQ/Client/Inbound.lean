import UnoQ.Client.Views

/-!
# What a bridge owes the router

Messages are taken from one connection at a time, and RESPONSEs go to the connection
they are for, for whole runs of a bridge. Both rest on state that outlives a connection,
the decoder's buffer and the handlers, and hold in the runs that keep it apart. What is
said of a connection supposes that no other one is open beside it.
-/

namespace UnoQ.Client.Bridge
open Codec Transition BigEndian

theorem service_inv {host : Host} {ok : Guard Bridge Event} {s : Bridge}
    (h : (machine host).Reach ok s) : s.service.Inv := by
  have hrun : (Service.machine host.mp host.options).Reach always s.service :=
    service_reach (fun _ _ _ _ => trivial) (fun _ _ _ _ _ => trivial) h
  exact Service.inv_reach hrun

def reconnecting : List Event :=
  [.broken 0 true, .closed 0, .tick 200, .reconnectTimer, .opened 0, .resumeReplay 0]

/-! ### One connection at a time -/

/-- When the bytes change over to another connection no partial message is buffered, and no exception
ends the loop of `onData` with messages still before it. -/
def Divided (host : Host) : Guard Bridge Event := fun s e _ =>
  match e with
  | .data c _ => c = s.receiver.conn ∨ s.receiver.decoder.buffer = []
  | .dispatch thrower => s.losesMessages host thrower = false
  | _ => True

instance (host : Host) (s : Bridge) (e : Event) (t : Bridge) : Decidable (Divided host s e t) := by
  cases e <;> dsimp only [Divided] <;> infer_instance

theorem next_of_keeps {host : Host} {s : Bridge} {thrower : Option ℕ} {msg : List JsValue}
    {rest : List JsValue} (hin : s.receiver.inbox = .arr msg :: rest)
    (hthrows : s.throws host msg thrower = true) (h : s.losesMessages host thrower = false) :
    s.receiver.next.inbox = [] := by
  have hnext : s.receiver.next.inbox = rest := by
    unfold Receiver.next
    rw [hin]
  cases rest with
  | nil => exact hnext
  | cons x xs =>
    have hlost : s.losesMessages host thrower = s.throws host msg thrower := by
      unfold losesMessages
      rw [hin]
    rw [hlost, hthrows] at h
    contradiction

/-- In runs that meet the condition, the messages of a connection are those of its own bytes. -/
theorem uncontaminated_of_divided (host : Host) (s : Bridge) (h : (machine host).Reach (Divided host) s) :
    s.receiver.Uncontaminated host.mp := by
  have hrun : (Receiver.machine host.mp).Reach (fun r e _ => r.Divided e) s.receiver := by
    refine receiver_reach (fun _ _ _ _ hg => hg) (fun _ _ => trivial) ?_ h
    intro s thrower _ hg msg rest hin hthrows
    exact next_of_keeps hin hthrows hg
  exact (Receiver.apart_reach hrun).messages

def cleanRun : List Event :=
  [.data 0 [0x93, 2], .data 0 [0xa2, 103, 111, 0x90], .dispatch none] ++ reconnecting ++
    [.resumeReplay 0, .data 1 [0x93, 2, 0xa2, 103, 111, 0x90], .dispatch none]

theorem cleanRun_uncontaminated :
    ((machine referenceHost).after (Divided referenceHost) initial cleanRun).receiver.handled.length = 2 ∧
      ((machine referenceHost).after (Divided referenceHost) initial
        cleanRun).receiver.Uncontaminated referenceHost.mp :=
  ⟨by decide +kernel, uncontaminated_of_divided referenceHost _ ((Machine.Reach.init rfl).after cleanRun)⟩

def cutRun : List Event :=
  [.data 0 [0x92]] ++ reconnecting ++ [.resumeReplay 0, .data 1 [0x93, 2, 0xa2, 103, 111, 0x90]]

theorem cutRun_contaminated : ¬ ∀ s : Bridge, (machine referenceHost).Reach always s →
    s.receiver.Uncontaminated referenceHost.mp := by
  intro hall
  have hcut := hall _ ((Machine.Reach.init rfl).after cutRun) 1
  have hlen := congrArg List.length hcut
  exact absurd hlen (by decide +kernel)

/-! ### One response a request -/

/-- No `connect()` of a reconnect attempt resolves while an earlier connection is open. -/
def OneByOne : Guard Bridge Event := fun s e _ =>
  match e with
  | .opened _ => s.service.link.NoneOpen
  | _ => True

instance (s : Bridge) (e : Event) (t : Bridge) : Decidable (OneByOne s e t) := by
  cases e <;> dsimp only [OneByOne] <;> infer_instance

theorem oneByOne_governs (host : Host) : Governs host OneByOne fun w e _ => w.OneByOne e where
  plain w e v he := by
    cases e with
    | opened r => contradiction
    | _ => trivial
  settle _ _ _ _ _ := trivial
  shut _ _ _ := trivial
  close _ _ _ _ := trivial
  resumeClose _ _ _ _ _ _ := trivial
  opened _ _ _ hg := hg
  caught _ _ _ _ _ := trivial
  closed _ _ _ _ := trivial
  broken _ _ _ _ _ := trivial

theorem single_reach {host : Host} {s : Bridge} (h : (machine host).Reach OneByOne s) :
    s.service.link.Single :=
  Service.single_reach (serviceRun_reach (oneByOne_governs host) h)

theorem atMostOnceOn_reach {host : Host} {s : Bridge} (h : (machine host).Reach OneByOne s) (c : ℕ) :
    s.service.AtMostOnceOn c :=
  (Service.counted_reach (fun _ hw => (Service.single_reach hw).undivided _)
    (serviceRun_reach (oneByOne_governs host) h)).atMostOnceOn

theorem atMostOnce_reach (host : Host) (s : Bridge) (h : (machine host).Reach always s) :
    s.service.AtMostOnce ∧ ((machine host).Reach OneByOne s → ∀ c, s.service.AtMostOnceOn c) := by
  have hrun : (Service.machine host.mp host.options).Reach always s.service :=
    service_reach (fun _ _ _ _ => trivial) (fun _ _ _ _ _ => trivial) h
  have hcounted : s.service.Counted Service.everywhere :=
    Service.counted_reach (fun w _ => w.link.undivided_everywhere) hrun
  exact ⟨hcounted.atMostOnce (service_inv h), atMostOnceOn_reach⟩

def providing : List Event :=
  [.provide "f" 7, .data 0 [0x94, 1, 1, 0xc0, 0xc3], .dispatch none, .resumeCall 0,
    .resumeRegistration 0]

/-- Two REQUESTs for a provided method and one for another; one handler settles before `close` is
called, one after its drain. -/
def drainedRun : List Event :=
  providing ++
    [.data 0 [0x94, 0, 1, 0xa1, 102, 0x90, 0x94, 0, 2, 0xa1, 102, 0x90, 0x94, 0, 3, 0xa1, 103, 0x90],
      .dispatch none, .dispatch none, .dispatch none, .settle 0 (.returned (.nat 10)), .close,
      .settle 1 (.returned (.nat 20))]

def drainedState : Bridge := (machine referenceHost).after OneByOne initial drainedRun

theorem drainedState_reach : (machine referenceHost).Reach OneByOne drainedState :=
  (Machine.Reach.init rfl).after drainedRun

theorem drainedRun_atMostOnce :
    (∀ i ∈ [1, 2, 3], drainedState.service.responses 0 (.num (.int i)) = 1) ∧
      drainedState.service.AtMostOnce ∧ drainedState.service.AtMostOnceOn 0 := by
  obtain ⟨hall, hon⟩ := atMostOnce_reach referenceHost drainedState
    (drainedState_reach.mono fun _ _ _ _ _ => trivial)
  exact ⟨by decide +kernel, hall, hon drainedState_reach 0⟩

/-! ### The handler's own answer -/

/-- A handler settles while its own connection is the one in use, or finds no entry under its id. -/
def OnOwnConnection : Guard Bridge Event := fun s e _ =>
  match e with
  | .settle t o => s.service.OnOwnConnection (.settle t o)
  | _ => True

instance (s : Bridge) (e : Event) (t : Bridge) : Decidable (OnOwnConnection s e t) := by
  cases e <;> dsimp only [OnOwnConnection, Service.OnOwnConnection] <;> infer_instance

theorem noStale_of_onOwnConnection (host : Host) (s : Bridge)
    (h : (machine host).Reach (OnOwnConnection.and OneByOne) s) : s.service.NoStale := by
  refine Service.Own.noStale ?_ (service_inv h) (atMostOnceOn_reach h.right)
  refine Service.own_reach (service_reach ?_ (fun _ _ _ _ hg => hg) h.left)
  intro w e v he
  cases e with
  | settle t o => exact absurd rfl (he t o)
  | _ => trivial

/-- The router calls, drops the connection and calls again under the same id. -/
def repeated : List Event :=
  providing ++ [.data 0 [0x94, 0, 1, 0xa1, 102, 0x90], .dispatch none] ++ reconnecting ++
    [.data 1 [0x94, 0, 1, 0xa1, 102, 0x90], .dispatch none]

def freshRun : List Event :=
  repeated ++ [.settle 1 (.returned (.nat 20)), .settle 0 (.returned (.nat 10))]

theorem freshRun_noStale :
    ((machine referenceHost).after (OnOwnConnection.and OneByOne) initial freshRun).service.responses 1
      (.num (.int 1)) = 1 ∧
      ((machine referenceHost).after (OnOwnConnection.and OneByOne) initial freshRun).service.NoStale :=
  ⟨by decide +kernel,
    noStale_of_onOwnConnection referenceHost _ ((Machine.Reach.init rfl).after freshRun)⟩

/-- The first handler settles first and answers the second REQUEST. -/
def staleRun : List Event := repeated ++ [.settle 0 (.returned (.nat 10))]

theorem staleRun_stale : ¬ ∀ s : Bridge, (machine referenceHost).Reach always s →
    (∀ c, s.service.DistinctIds c) → s.service.NoStale := by
  intro hall
  have hnodup : ((machine referenceHost).after always initial staleRun).service.requests.Nodup := by
    decide +kernel
  have hstale := hall _ ((Machine.Reach.init rfl).after staleRun)
    (fun c m => List.nodup_iff_count_le_one.mp hnodup (c, m))
  have hframe : ((machine referenceHost).after always initial staleRun).service.link.sent.any
      (fun f => decide (f.conn = 1 ∧ f.response = some (.num (.int 1), .handler 0))) = true := by
    decide +kernel
  obtain ⟨f, hf, hany⟩ := List.any_eq_true.mp hframe
  obtain ⟨hconn, hr⟩ := of_decide_eq_true hany
  have hown := (hstale.own f hf _ _ hr).2.1
  have htask : (((machine referenceHost).after always initial staleRun).service.tasks 0).conn = 0 := by
    decide +kernel
  omega

/-! ### An answer to every settled handler -/

/-- A handler with an entry in the table settles with an outcome whose RESPONSE can be made and
encoded. -/
def Answerable (host : Host) : Guard Bridge Event := fun s e _ =>
  match e with
  | .settle t o => s.service.Answerable host.mp (.settle t o)
  | _ => True

instance (mp : Msgpack) (o : Outcome) (msgid : JsValue) :
    Decidable (∃ message, o.reply msgid = some message ∧ (mp.encode message).isSome = true) :=
  inferInstanceAs (Decidable (∃ message ∈ o.reply msgid, (mp.encode message).isSome = true))

instance (host : Host) (s : Bridge) (e : Event) (t : Bridge) : Decidable (Answerable host s e t) := by
  cases e <;> dsimp only [Answerable, Service.Answerable] <;> infer_instance

theorem answerable_governs (host : Host) :
    Governs host (Answerable host) fun w e _ => w.Answerable host.mp e := by
  refine OnSettle.governs (fun w e v he => ?_) fun _ _ _ _ hg => hg
  cases e with
  | settle t o => exact absurd rfl (he t o)
  | _ => trivial

theorem allAnswered_of_answerable (host : Host) (s : Bridge)
    (h : (machine host).Reach ((Answerable host).and OneByOne) s) : s.service.AllAnswered := by
  have hrun := serviceRun_reach ((answerable_governs host).and (oneByOne_governs host)) h
  exact (Service.covered_reach hrun).allAnswered (service_inv h)

def answeredRun : List Event :=
  providing ++ [.data 0 [0x94, 0, 1, 0xa1, 102, 0x90, 0x94, 0, 2, 0xa1, 102, 0x90], .dispatch none,
    .dispatch none, .settle 1 (.thrown (some (.str "no"))), .settle 0 (.returned (.nat 10))]

theorem answeredRun_answered :
    (∀ i ∈ [1, 2], ((machine referenceHost).after ((Answerable referenceHost).and OneByOne) initial
      answeredRun).service.responses 0 (.num (.int i)) = 1) ∧
      ((machine referenceHost).after ((Answerable referenceHost).and OneByOne) initial
        answeredRun).service.AllAnswered :=
  ⟨by decide +kernel,
    allAnswered_of_answerable referenceHost _ ((Machine.Reach.init rfl).after answeredRun)⟩

/-- The handler returns what the encoder has no case for. -/
def unencodableRun : List Event :=
  providing ++ [.data 0 [0x94, 0, 1, 0xa1, 102, 0x90], .dispatch none,
    .settle 0 (.returned (.foreign 0))]

theorem unencodableRun_unanswered : ¬ ∀ s : Bridge, (machine referenceHost).Reach always s →
    s.service.AllAnswered := by
  intro hall
  obtain ⟨f, hf, -⟩ := hall _ ((Machine.Reach.init rfl).after unencodableRun) 0 (by decide +kernel)
    (by decide +kernel) 0 (by decide +kernel) (by decide +kernel) (Option.isSome_iff_ne_none.mp (by decide +kernel))
  have hpos := List.length_pos_of_mem hf
  exact absurd hpos (by decide +kernel)

end UnoQ.Client.Bridge
