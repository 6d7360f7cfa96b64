import UnoQ.Client.OneLink
import UnoQ.Client.Shutdown

/-!
# A connection that does not drop

Runs in which the bridge keeps its first connection until it closes it itself, REQUESTs
carry numbers that are not used twice, and handlers settle with something that can be
encoded. Every REQUEST is then in flight under its own id until it is answered.
-/

namespace UnoQ.Client
open Codec Transition BigEndian

def isNumber : JsValue → Bool
  | .num _ => true
  | _ => false

namespace Service

/-- A handler settles with a RESPONSE that can be encoded, and the connection ends only by `close`. -/
def Steady (mp : Msgpack) (w : Service) : Event → Prop
  | .settle t o => ∃ message, o.reply (w.tasks t).msgid = some message ∧ (mp.encode message).isSome = true
  | .close => w.link.closedByUs = true
  | .broken _ _ => False
  | .closed c _ => (w.link.conns c).ended = true
  | _ => True

/-- Each handler that runs has its entry in the table, each that has settled its RESPONSE. -/
structure Precise (w : Service) (c : ℕ) : Prop where
  writable : w.link.writable = some c
  conn : ∀ t < w.nextTask, (w.tasks t).conn = c
  running : ∀ t < w.nextTask, (w.tasks t).outcome = none →
    w.inFlight.get (w.tasks t).key = some ⟨(w.tasks t).msgid, (w.tasks t).method⟩
  entries : ∀ m e, w.inFlight.get m = some e → ∃ t < w.nextTask, e.msgid = (w.tasks t).msgid
  settled : ∀ t < w.nextTask, ∀ o, (w.tasks t).outcome = some o → ∃ message,
    o.reply (w.tasks t).msgid = some message ∧
      ⟨c, message, some ((w.tasks t).key, .handler t)⟩ ∈ w.link.sent

theorem distinctIds_of_nodup {w : Service} (h : w.requests.Nodup) (c : ℕ) : w.DistinctIds c :=
  fun m => List.nodup_iff_count_le_one.mp h (c, m)

theorem requests_apply (mp : Msgpack) (options : ReconnectOptions) (w : Service) (e : Event) :
    w.requests <+: (w.apply mp options e).requests := by
  cases e with
  | receive c msgid method params handler => exact List.prefix_append _ _
  | refuse c msgid method =>
    change w.requests <+: (w.refuse mp c msgid method).requests
    unfold refuse
    cases method <;> exact List.prefix_append _ _
  | settle t o =>
    have hsame : (w.settle mp t o).requests = w.requests := by
      rcases settle_cases mp w t o with ⟨-, h⟩ | ⟨message, -, -, h⟩
      · rw [h]
      · rw [h]
    exact hsame.symm ▸ List.prefix_rfl
  | shut connected => cases connected <;> exact List.prefix_rfl
  | _ => exact List.prefix_rfl

theorem Precise.frame {w v : Service} {c : ℕ} (h : w.Precise c) (htasks : v.tasks = w.tasks)
    (hnext : v.nextTask = w.nextTask) (hin : v.inFlight = w.inFlight)
    (hw : v.link.writable = some c) (hsent : w.link.sent <+: v.link.sent) : v.Precise c := by
  constructor
  · exact hw
  · rw [hnext, htasks]
    exact h.conn
  · rw [hnext, htasks, hin]
    exact h.running
  · rw [hnext, htasks, hin]
    exact h.entries
  · rw [hnext, htasks]
    intro t ht o ho
    obtain ⟨message, hrep, hmem⟩ := h.settled t ht o ho
    exact ⟨message, hrep, hsent.subset hmem⟩

theorem precise_receive {w : Service} (hi : w.Inv) (hone : w.link.Single) {c d : ℕ} (h : w.Precise c)
    (hd : w.reads d = true) {msgid : JsValue} {method : String} {params : JsValue} {handler : ℕ}
    (hnodup : (w.receive d msgid method params handler).requests.Nodup) :
    (w.receive d msgid method params handler).Precise c := by
  have hopen := hi.link.socket c (Link.writable_socket h.writable).1
  have hdc : d = c := hone.single d c ((w.reads_iff d).mp hd).1 hopen
  subst hdc
  have htask := w.receive_tasks d msgid method params handler
  have hnew : ∀ t < w.nextTask, msgid.mapKey w.requests.length ≠ (w.tasks t).key := by
    intro t ht hkey
    have hreq := List.mem_of_getElem? (hi.tasks t ht).request
    rw [h.conn t ht, ← hkey] at hreq
    have hnot := (List.nodup_append.mp hnodup).2.2 _ hreq _ (List.mem_singleton_self _)
    exact hnot rfl
  constructor
  · exact h.writable
  · intro t ht
    have ht' : t < w.nextTask + 1 := ht
    rw [htask]
    split
    next => rfl
    next hne => exact h.conn t (by omega)
  · intro t ht ho
    have ht' : t < w.nextTask + 1 := ht
    change (w.inFlight.set (msgid.mapKey w.requests.length) ⟨msgid, method⟩).get _ = _
    rw [htask] at ho ⊢
    split at ho
    next hnew =>
      rw [if_pos hnew]
      exact w.inFlight.get_set_self _ _
    next hne =>
      rw [if_neg hne, InsertMap.get_set_ne _ _ (hnew t (by omega))]
      exact h.running t (by omega) ho
  · intro m e he
    rcases InsertMap.get_set_eq_some he with ⟨-, rfl⟩ | ⟨-, hold⟩
    · exact ⟨w.nextTask, Nat.lt_succ_self _, by rw [htask, if_pos rfl]⟩
    · obtain ⟨t, ht, he⟩ := h.entries m e hold
      exact ⟨t, Nat.lt_succ_of_lt ht, by rw [htask, if_neg (by omega), he]⟩
  · intro t ht o ho
    have ht' : t < w.nextTask + 1 := ht
    rw [htask] at ho ⊢
    split at ho
    next => contradiction
    next hne =>
      rw [if_neg hne]
      exact h.settled t (by omega) o ho

theorem precise_settle {mp : Msgpack} {w : Service} (hi : w.Inv) {c : ℕ} (h : w.Precise c) {t : ℕ}
    (ht : t < w.nextTask) (ho : (w.tasks t).outcome = none) {o : Outcome}
    (hg : w.Steady mp (.settle t o)) (hnodup : w.requests.Nodup) : (w.settle mp t o).Precise c := by
  obtain ⟨message, hrep, henc⟩ := hg
  have hget := h.running t ht ho
  have hself := w.settle_tasks mp t t o
  rw [if_pos rfl] at hself
  have hother : ∀ x, x ≠ t → (w.settle mp t o).tasks x = w.tasks x := by
    intro x hx
    rw [settle_tasks, if_neg hx]
  rcases settle_cases mp w t o with ⟨hno, -⟩ | ⟨message', hrep', -, he⟩
  · rcases hno with hno | hno
    · rw [hrep] at hno
      contradiction
    · rw [hget] at hno
      contradiction
  · rw [hrep] at hrep'
    cases hrep'
    have hlink : (w.settle mp t o).link =
        w.link.send mp message (some ((w.tasks t).key, .handler t)) := by rw [he]
    have hin : (w.settle mp t o).inFlight = w.inFlight.delete (w.tasks t).key := by rw [he]
    have hnext : (w.settle mp t o).nextTask = w.nextTask := by rw [he]
    have hsent : (w.settle mp t o).link.sent =
        w.link.sent ++ [⟨c, message, some ((w.tasks t).key, .handler t)⟩] := by
      rw [hlink]
      simp [Link.send, henc, Link.write, h.writable]
    have hfield : ∀ x, ((w.settle mp t o).tasks x).conn = (w.tasks x).conn ∧
        ((w.settle mp t o).tasks x).msgid = (w.tasks x).msgid := by
      intro x
      by_cases hx : x = t
      · rw [hx, hself]
        exact ⟨rfl, rfl⟩
      · rw [hother x hx]
        exact ⟨rfl, rfl⟩
    constructor
    · rw [hlink, (w.link.sends_send mp _ _).writable]
      exact h.writable
    · intro x hx
      rw [(hfield x).1]
      exact h.conn x (hnext ▸ hx)
    · intro x hx hxo
      have hxt : x ≠ t := by
        intro hxt
        rw [hxt, hself] at hxo
        contradiction
      rw [hnext] at hx
      rw [hother x hxt] at hxo ⊢
      have hkey : (w.tasks t).key ≠ (w.tasks x).key := fun hkey =>
        hxt (task_unique hi ht hx (distinctIds_of_nodup hnodup _)
          ((h.conn x hx).trans (h.conn t ht).symm) hkey.symm)
      rw [hin, InsertMap.get_delete_ne _ hkey]
      exact h.running x hx hxo
    · intro m e hm
      rw [hin] at hm
      obtain ⟨x, hx, hmsgid⟩ := h.entries m e (InsertMap.get_delete_eq_some hm).2
      exact ⟨x, hnext.symm ▸ hx, hmsgid.trans (hfield x).2.symm⟩
    · intro x hx o' hxo
      rw [hnext] at hx
      rw [hsent]
      by_cases hxt : x = t
      · subst hxt
        rw [hself] at hxo ⊢
        cases hxo
        exact ⟨message, hrep, List.mem_append_right _ (List.mem_singleton_self _)⟩
      · rw [hother x hxt] at hxo ⊢
        obtain ⟨m, hm, hmem⟩ := h.settled x hx o' hxo
        exact ⟨m, hm, List.mem_append_left _ hmem⟩

theorem precise_apply {mp : Msgpack} {options : ReconnectOptions} {w : Service} (hi : w.Inv)
    (hone : w.link.Single) (hlone : w.link.Lone) {c : ℕ} (h : w.Precise c) {e : Event} (he : w.enabled e = true) (hg : w.Steady mp e)
    (hclosed : (w.apply mp options e).link.closedByUs = false)
    (hnodup : (w.apply mp options e).requests.Nodup) : (w.apply mp options e).Precise c := by
  have hsent := sent_apply mp options w e
  have hlink := (sends_apply mp options w e).writable
  have hopen := hi.link.socket c (Link.writable_socket h.writable).1
  obtain ⟨hbefore, hshut⟩ := closedByUs_apply hclosed
  cases e with
  | write message => exact h.frame rfl rfl rfl (hlink.trans h.writable) hsent
  | receive d msgid method params handler => exact precise_receive hi hone h he hnodup
  | refuse d msgid method =>
    have hsame : (w.refuse mp d msgid method).tasks = w.tasks ∧
        (w.refuse mp d msgid method).nextTask = w.nextTask ∧
        (w.refuse mp d msgid method).inFlight = w.inFlight := by
      unfold refuse
      cases method <;> exact ⟨rfl, rfl, rfl⟩
    exact h.frame hsame.1 hsame.2.1 hsame.2.2 (hlink.trans h.writable) hsent
  | settle t o =>
    have ht : t < w.nextTask ∧ (w.tasks t).outcome.isNone := of_decide_eq_true he
    exact precise_settle hi h ht.1 (Option.isNone_iff_eq_none.mp ht.2) hg
      (hnodup.sublist (requests_apply mp options w (.settle t o)).sublist)
  | shut connected => exact absurd rfl (hshut connected)
  | close =>
    have hyes : w.link.closedByUs = true := hg
    rw [hbefore] at hyes
    contradiction
  | doReconnect r =>
    have ht : w.link.reconnectTimer.isSome = true := he
    rw [(hlone.alone c hopen).2] at ht
    contradiction
  | opened r =>
    have hr : r ∈ w.link.dialing := of_decide_eq_true he
    rw [(hlone.alone c hopen).1] at hr
    contradiction
  | refused r now listener =>
    have hr : r ∈ w.link.dialing := of_decide_eq_true he
    rw [(hlone.alone c hopen).1] at hr
    contradiction
  | caught now listener =>
    exact h.frame rfl rfl rfl (hlink.trans ((Link.writable_caught ..).trans h.writable)) hsent
  | reconnected => exact h.frame rfl rfl rfl (hlink.trans h.writable) hsent
  | closed d now =>
    have hd : (w.link.conns d).status = .opened := of_decide_eq_true he
    have hended : (w.link.conns d).ended = true := hg
    rw [← hone.single c d hopen hd, (Link.writable_socket h.writable).2.2] at hended
    contradiction
  | broken d destroyed => exact hg.elim

/-- The frame is the answer to task `t`: its handler's own, or that of `close` when the handler has not
settled. -/
def Replies (w : Service) (t : ℕ) (f : Frame) : Prop :=
  f.conn = (w.tasks t).conn ∧
    match (w.tasks t).outcome with
    | some o => f.response = some ((w.tasks t).key, .handler t) ∧
        o.reply (w.tasks t).msgid = some f.message
    | none => f.response = some ((w.tasks t).key, .closing) ∧
        f.message = closingReply ⟨(w.tasks t).msgid, (w.tasks t).method⟩

/-- Documented behaviour of the encoder: a RESPONSE of a number and a text can be encoded. -/
def EncodesClosing (mp : Msgpack) : Prop :=
  ∀ n method, (mp.encode (closingReply ⟨.num n, method⟩)).isSome = true

theorem reference_encodesClosing : EncodesClosing reference := fun _ _ => rfl

theorem replies_shut {mp : Msgpack} {w : Service} {c : ℕ} (h : w.Precise c) (henc : w.Closable mp)
    {t : ℕ} (ht : t < w.nextTask) : ∃ f ∈ (w.shut mp true).link.sent, w.Replies t f := by
  rw [shut_sent h.writable henc]
  unfold Replies
  cases ho : (w.tasks t).outcome with
  | none =>
    have hmem := (InsertMap.get_eq_some_iff _).mp (h.running t ht ho)
    refine ⟨⟨c, closingReply ⟨(w.tasks t).msgid, (w.tasks t).method⟩,
      some ((w.tasks t).key, .closing)⟩, ?_, (h.conn t ht).symm, rfl, rfl⟩
    exact List.mem_append_right _ (List.mem_map.mpr ⟨_, hmem, rfl⟩)
  | some o =>
    obtain ⟨message, hrep, hmem⟩ := h.settled t ht o ho
    exact ⟨_, List.mem_append_left _ hmem, (h.conn t ht).symm, rfl, hrep⟩

/-- REQUESTs come with numbers, no number twice on a connection. -/
def Numbered (w : Service) : Prop :=
  w.requests.Nodup ∧ ∀ t < w.nextTask, isNumber (w.tasks t).msgid = true

instance (w : Service) : Decidable w.Numbered :=
  inferInstanceAs (Decidable (w.requests.Nodup ∧ ∀ t < w.nextTask, isNumber (w.tasks t).msgid = true))

theorem Precise.closable {mp : Msgpack} (hm : EncodesClosing mp) {w : Service} {c : ℕ}
    (h : w.Precise c) (hn : w.Numbered) : w.Closable mp := by
  intro p hp
  obtain ⟨t, ht, hmsgid⟩ := h.entries p.1 p.2 ((InsertMap.get_eq_some_iff _).mpr hp)
  have hnum := hn.2 t ht
  rw [← hmsgid] at hnum
  obtain ⟨m, e⟩ := p
  obtain ⟨msgid, method⟩ := e
  cases msgid with
  | num n => exact hm n method
  | _ => contradiction

/-- What is known of tasks and frames later in a run: settled tasks stay as they are. -/
structure Later (w v : Service) : Prop where
  nextTask : w.nextTask ≤ v.nextTask
  fields : ∀ t < w.nextTask, (v.tasks t).conn = (w.tasks t).conn ∧ (v.tasks t).key = (w.tasks t).key
  settled : ∀ t < w.nextTask, (w.tasks t).outcome.isSome = true → (v.tasks t).outcome.isSome = true
  sent : w.link.sent <+: v.link.sent

theorem later_apply (mp : Msgpack) (options : ReconnectOptions) {u w : Service} (h : u.Later w)
    (e : Event) : u.Later (w.apply mp options e) := by
  have hlt : ∀ t < u.nextTask, t < w.nextTask := fun t ht => Nat.lt_of_lt_of_le ht h.nextTask
  constructor
  · exact h.nextTask.trans (nextTask_apply mp options w e)
  · intro t ht
    obtain ⟨hconn, hkey, -⟩ := task_fields mp options e (hlt t ht)
    obtain ⟨hconn', hkey'⟩ := h.fields t ht
    exact ⟨hconn.trans hconn', hkey.trans hkey'⟩
  · intro t ht ho
    rcases (task_apply mp options e (hlt t ht)).2 with hsame | ⟨o, -, hset⟩
    · rw [hsame]
      exact h.settled t ht ho
    · rw [hset]
      rfl
  · exact h.sent.trans (sent_apply mp options w e)

end Service

namespace Bridge

/-- What the router, the network and the handlers do in these runs. -/
def Steady (host : Host) : Guard Bridge Event := fun s e t =>
  t.service.Numbered ∧
    match e with
    | .settle k o => s.service.Steady host.mp (.settle k o)
    | .broken c destroyed => s.service.Steady host.mp (.broken c destroyed)
    | .closed c => s.service.Steady host.mp (.closed c s.calls.now)
    | _ => True

instance (host : Host) (s : Bridge) : ∀ (e : Event) (t : Bridge), Decidable (Steady host s e t) := by
  rintro (_ | _) t <;> dsimp only [Steady, Service.Steady] <;> infer_instance

theorem numbered_reach {host : Host} {s : Bridge} (h : (machine host).Reach (Steady host) s) :
    s.service.Numbered := by
  refine h.invariant (P := fun s => s.service.Numbered) ?_ ?_
  · intro s hs
    cases hs
    exact ⟨List.nodup_nil, fun t ht => absurd ht (Nat.not_lt_zero t)⟩
  · exact fun _ _ _ _ _ _ hg => hg.1

/-- No reconnect attempt is under way or to be made. -/
structure AtRest (s : Bridge) : Prop where
  timer : s.service.link.reconnectTimer = none
  dialing : s.service.link.dialing = []
  replays : ∀ r, s.replays r = .idle
  ended : s.service.link.closedByUs = false → ∀ c, s.service.link.IsOpen c →
    (s.service.link.conns c).ended = false

theorem atRest_shutting {s : Bridge} (h : s.AtRest) : s.shutting.AtRest :=
  ⟨rfl, h.dialing, h.replays, fun hopen => by contradiction⟩

theorem atRest_closeTransport {s : Bridge} (h : s.AtRest) (hclosed : s.service.link.closedByUs = true)
    (x : ℕ) : (s.closeTransport x).AtRest := by
  refine ⟨?_, ?_, h.replays, fun hopen => ?_⟩
  · rw [closeTransport_link, Link.close_eq]
    exact h.timer
  · rw [closeTransport_link, Link.close_eq]
    exact h.dialing
  · rw [closeTransport_link, Link.close_eq] at hopen
    have hours : s.service.link.closedByUs = false := hopen
    rw [hclosed] at hours
    contradiction

theorem atRest_moves {host : Host} {s u t : Bridge} {e : Event} (hs : s.Shutting) (h : s.AtRest)
    (hg : Steady host s e t) (hm : Moves host s e u) : u.AtRest := by
  cases hm with
  | stay => exact h
  | reset k hc => exact { atRest_shutting h with }
  | shut hc => exact atRest_closeTransport (atRest_shutting h) rfl _
  | tearDown x k hx => exact atRest_closeTransport h (hs.closed x (by simp [hx])) x
  | finish x conn hx hc => exact { h with }
  | broken c d hidle hc => exact hg.2.elim
  | closed c hidle hc =>
    have hclosed : s.service.link.closedByUs = true := by
      by_contra hopen
      have hended : (s.service.link.conns c).ended = true := hg.2
      rw [h.ended (Bool.not_eq_true _ ▸ hopen) c hc] at hended
      contradiction
    have hlink : (s.onTransportClose host c).service.link =
        { s.service.link.setConn c { s.service.link.conns c with status := .closed } with
          socket := if s.service.link.socket = some c then none else s.service.link.socket } :=
      if_neg (by simp [Link.setConn, hclosed])
    refine ⟨?_, ?_, h.replays, fun hopen => ?_⟩
    · rw [hlink]
      exact h.timer
    · rw [hlink]
      exact h.dialing
    · rw [hlink] at hopen
      exact absurd hclosed (by simpa [Link.setConn] using hopen)
  | opened r hidle hr =>
    rw [h.dialing] at hr
    contradiction
  | refused r hidle hr =>
    rw [h.dialing] at hr
    contradiction
  | reconnectTimer ht => exact absurd h.timer ht
  | connected r replay hr hne =>
    rw [h.replays r] at hr
    contradiction
  | replay r replay hr hd hne => exact absurd (h.replays r) hr
  | caught r hr =>
    rw [h.replays r] at hr
    contradiction

theorem atRest_reach {host : Host} {s : Bridge} (h : (machine host).Reach (Steady host) s) :
    s.AtRest := by
  refine h.invariant (P := AtRest) ?_ ?_
  · intro s hs
    cases hs
    refine ⟨rfl, rfl, fun _ => rfl, fun _ c hc => ?_⟩
    rw [Link.open_initial hc]
    rfl
  · intro s e t hr hsettled hstep hg
    obtain ⟨he, rfl⟩ := Machine.ofEnabled_step.mp hstep
    obtain ⟨u, hm, hp⟩ := moves_apply host he
    have hu := atRest_moves (shutting_reach hr) hsettled hg hm
    have hlink := hp.link_eq
    refine ⟨?_, ?_, ?_, ?_⟩
    · rw [hlink]
      exact hu.timer
    · rw [hlink]
      exact hu.dialing
    · rw [hp.replays]
      exact hu.replays
    · rw [hlink]
      exact hu.ended

/-- With no replay there is none that throws. -/
theorem catchesVacant_of_atRest {s : Bridge} (h : s.AtRest) (e : Event) (t : Bridge) :
    CatchesVacant s e t := by
  cases e with
  | resumeReplay r =>
    intro hr
    rw [h.replays r] at hr
    contradiction
  | _ => trivial

theorem vacant_steady {host : Host} {s : Bridge} (h : (machine host).Reach (Steady host) s) :
    (machine host).Reach CatchesVacant s :=
  h.mono fun _ e t hs _ => catchesVacant_of_atRest (atRest_reach hs) e t

theorem governs_steady (host : Host) : Governs host (fun s e t => Steady host s e t ∧ s.Shutting)
    fun w e _ => w.Steady host.mp e where
  plain w e v he := by cases e <;> first | exact trivial | contradiction
  settle _ _ _ _ h := h.1.2
  shut _ _ _ := trivial
  close _ _ _ _ := rfl
  resumeClose s x k _ h hx := h.2.closed x (by simp [hx])
  opened _ _ _ _ := trivial
  caught _ _ _ _ _ := trivial
  closed _ _ _ h := h.1.2
  broken _ _ _ _ h := h.1.2

theorem precise_reach {host : Host} {s : Bridge} (h : (machine host).Reach (Steady host) s)
    (hclosed : s.service.link.closedByUs = false) : s.service.Precise 0 := by
  have hguarded : (machine host).Reach
      (Guard.and (fun s e t => Steady host s e t ∧ s.Shutting) CatchesVacant) s :=
    h.mono fun s e t hs hg => ⟨⟨hg, shutting_reach hs⟩, catchesVacant_of_atRest (atRest_reach hs) e t⟩
  have hrun := serviceRun_reach ((governs_steady host).and (catchesVacant_governs host)) hguarded
  have hprecise : s.service.link.closedByUs = false → s.service.requests.Nodup →
      s.service.Precise 0 := by
    refine hrun.invariant (P := fun w => w.link.closedByUs = false → w.requests.Nodup → w.Precise 0)
      ?_ ?_
    · intro w hw _ _
      cases hw
      refine ⟨rfl, fun t ht => absurd ht (Nat.not_lt_zero t), fun t ht => absurd ht (Nat.not_lt_zero t),
        fun m e he => ?_, fun t ht => absurd ht (Nat.not_lt_zero t)⟩
      rw [show Service.initial.inFlight.get m = none from rfl] at he
      contradiction
    · intro w e v hr hp hstep hg hopen hnodup
      obtain ⟨he, rfl⟩ := Machine.ofEnabled_step.mp hstep
      have hbefore := (Service.closedByUs_apply hopen).1
      have hprefix := Service.requests_apply host.mp host.options w e
      obtain ⟨hone, hlone⟩ := Service.lone_reach hr.right
      exact Service.precise_apply (Service.inv_reach hr) hone hlone
        (hp hbefore (hnodup.sublist hprefix.sublist)) he hg.1 hopen hnodup
  exact hprecise hclosed (numbered_reach h).1

/-- Only `close()` closes. -/
theorem closedByUs_moves {host : Host} {s u : Bridge} {e : Event} (hm : Moves host s e u)
    (he : e ≠ .close) : u.service.link.closedByUs = s.service.link.closedByUs := by
  cases hm with
  | reset => contradiction
  | shut => contradiction
  | tearDown x k hx =>
    rw [closeTransport_link, Link.close_eq]
  | closed c hidle hc =>
    change (s.service.link.closed host.options s.calls.now c).closedByUs = _
    rw [Link.closed_eq]
  | refused r hidle hr =>
    change (s.service.link.refused host.options s.calls.now r s.errorListener).closedByUs = _
    rw [Link.refused_eq]
  | caught r hr =>
    change (s.service.link.caught host.options s.calls.now s.errorListener).closedByUs = _
    rw [Link.caught_eq]
  | _ => rfl

theorem closedByUs_apply {host : Host} {s : Bridge} {e : Event} (henabled : s.enabled e = true)
    (he : e ≠ .close) :
    (s.apply host e).service.link.closedByUs = s.service.link.closedByUs := by
  obtain ⟨u, hm, hp⟩ := moves_apply host henabled
  rw [hp.link_eq]
  exact closedByUs_moves hm he

theorem closedByUs_close (host : Host) (s : Bridge) :
    (s.close host).service.link.closedByUs = true := by
  obtain ⟨u, hm, hp⟩ := moves_close host s
  rw [hp.link_eq]
  cases hm with
  | stay hne => contradiction
  | reset => rfl
  | shut =>
    change (s.shutting.closeTransport s.nextClosing).service.link.closedByUs = true
    rw [closeTransport_link, Link.close_eq]
    rfl

theorem later_since {host : Host} {ok : Guard Bridge Event} {s t : Bridge}
    (hs : (machine host).Reach ok s) (h : ((machine host).startingAt s).Reach ok t) :
    s.service.Later t.service := by
  have hgoverns : Governs host ok (fun _ _ _ => True) :=
    OnSettle.governs (fun _ _ _ _ => trivial) (fun _ _ _ _ _ => trivial)
  have hrun := serviceRun_since hgoverns hs h
  refine hrun.invariant ?_ ?_
  · intro w hw
    cases hw
    exact ⟨Nat.le_refl _, fun _ _ => ⟨rfl, rfl⟩, fun _ _ ho => ho, List.prefix_rfl⟩
  · intro w e v _ hl hstep _
    obtain ⟨-, rfl⟩ := Machine.ofEnabled_step.mp hstep
    exact Service.later_apply host.mp host.options hl e

/-- In these runs a connection does not end before it is closed. -/
theorem not_ended {host : Host} {s t : Bridge} {c : ℕ} (h : (machine host).Reach (Steady host) s)
    (hclosed : s.service.link.closedByUs = false) (hc : s.service.link.IsOpen c) :
    ¬ Steady host s (.closed c) t := by
  intro hg
  have hlive := Link.writable_socket (precise_reach h hclosed).writable
  have hopen := (service_inv h).link.socket 0 hlive.1
  have hended : (s.service.link.conns c).ended = true := hg.2
  rw [← (lone_reach (vacant_steady h)).1.single 0 c hopen hc, hlive.2.2] at hended
  contradiction

/-- Until it is closed the bridge stays connected. -/
theorem connected_reach {host : Host} {s : Bridge} (h : (machine host).Reach (Steady host) s)
    (hclosed : s.service.link.closedByUs = false) : s.calls.connected = true := by
  have hall : s.service.link.closedByUs = false → s.calls.connected = true := by
    refine h.invariant (P := fun s => s.service.link.closedByUs = false → s.calls.connected = true) ?_ ?_
    · intro s hs _
      cases hs
      rfl
    · intro s e t hr hconn hstep hg hopen
      obtain ⟨he, rfl⟩ := Machine.ofEnabled_step.mp hstep
      by_cases hclose : e = .close
      · subst hclose
        have hyes : (s.apply host .close).service.link.closedByUs = true := closedByUs_close host s
        rw [hopen] at hyes
        contradiction
      · rw [closedByUs_apply he hclose] at hopen
        obtain ⟨u, hm, hp⟩ := moves_apply host he
        rw [hp.connected]
        cases hm with
        | closed c hidle hc => exact absurd hg (not_ended hr hopen hc)
        | connected => rfl
        | _ => exact hconn hopen
  exact hall hclosed

end Bridge

end UnoQ.Client
