import UnoQ.Client.Views

/-!
# The record and the wire

The retry loop is judged by its record of REQUESTs written. Here the record is tied to
the frames: every REQUEST that reaches a connection was recorded, in the same order, by
the attempt that wrote it.
-/

namespace UnoQ.Client
open Codec Transition

def isRequest : JsValue → Bool
  | .arr (.num (.int i) :: _) => i = MSG_REQUEST
  | _ => false

namespace Calls

/-- The REQUEST an entry of the record stands for. -/
def written (c : Calls) : Happening → Option JsValue
  | .wrote k _ id => some (request id (c.calls k).method (c.calls k).params)
  | _ => none

def requests (c : Calls) : List JsValue := c.log.filterMap c.written

/-! ### What a step adds to the record -/

theorem requests_append {c d : Calls} (hi : c.Inv)
    (hcalls : ∀ k, k < c.nextCall → (d.calls k).method = (c.calls k).method ∧
      (d.calls k).params = (c.calls k).params)
    {more : List Happening} (hlog : d.log = c.log ++ more) :
    d.requests = c.requests ++ more.filterMap d.written := by
  unfold requests
  rw [hlog, List.filterMap_append]
  congr 1
  refine List.filterMap_congr (fun ev hev => ?_)
  cases ev with
  | wrote k a id =>
    obtain ⟨hlt, hk⟩ := hi.wrote k a id hev
    have hcaller := hi.caller a hlt
    rw [hk] at hcaller
    obtain ⟨hm, hp⟩ := hcalls k hcaller
    simp only [written, hm, hp]
  | _ => rfl

/-- A step that records no REQUEST and leaves what the invocations call as it is. -/
structure Mute (c d : Calls) : Prop where
  calls : ∀ k, (d.calls k).method = (c.calls k).method ∧ (d.calls k).params = (c.calls k).params
  log : ∃ more, d.log = c.log ++ more ∧ ∀ ev ∈ more, ∀ k a id, ev ≠ .wrote k a id

theorem Mute.rfl {c : Calls} : c.Mute c := ⟨fun _ => ⟨Eq.refl _, Eq.refl _⟩, [], by simp, by simp⟩

theorem Mute.trans {c d e : Calls} (h : c.Mute d) (h' : d.Mute e) : c.Mute e := by
  obtain ⟨hcalls, more, hlog, hmore⟩ := h
  obtain ⟨hcalls', more', hlog', hmore'⟩ := h'
  refine ⟨fun k => ⟨(hcalls' k).1.trans (hcalls k).1, (hcalls' k).2.trans (hcalls k).2⟩,
    more ++ more', ?_, fun ev hev => ?_⟩
  · rw [hlog', hlog, List.append_assoc]
  · rcases List.mem_append.mp hev with h | h
    · exact hmore ev h
    · exact hmore' ev h

theorem Mute.requests {c d : Calls} (h : c.Mute d) (hi : c.Inv) : d.requests = c.requests := by
  obtain ⟨more, hlog, hmore⟩ := h.log
  rw [requests_append hi (fun k _ => h.calls k) hlog]
  have hnone : more.filterMap d.written = [] := by
    rw [List.filterMap_eq_nil_iff]
    intro ev hev
    cases ev with
    | wrote k a id => exact absurd (Eq.refl _) (hmore _ hev k a id)
    | _ => exact Eq.refl _
  rw [hnone, List.append_nil]

theorem mute_retire (c : Calls) (id a : ℕ) (via : Option ℕ) (r : Settlement) :
    c.Mute (c.retire id a via r) := by
  refine ⟨fun _ => ⟨rfl, rfl⟩, c.settling a via r, rfl, fun ev hev k x i he => ?_⟩
  rw [(mem_settling hev).1] at he
  cases he

theorem mute_respond (c : Calls) (id : ℕ) (r : Settlement) : c.Mute (c.respond id r) := by
  unfold respond
  split
  · exact .rfl
  · exact mute_retire ..

theorem mute_expire (c : Calls) (a : ℕ) : c.Mute (c.expire a) := by
  unfold expire
  split
  · exact .rfl
  · exact mute_retire ..

theorem mute_rejectAll (l : List (ℕ × ℕ)) : ∀ c : Calls, c.Mute (rejectAll l c) := by
  induction l with
  | nil => exact fun _ => .rfl
  | cons p rest ih => exact fun c => (mute_retire ..).trans (ih _)

theorem mute_onTransportClose (c : Calls) : c.Mute c.onTransportClose := by
  have hdown : c.Mute { c with connected := false } :=
    ⟨fun _ => ⟨rfl, rfl⟩, [], by simp, by simp⟩
  have hclosed : ∀ d : Calls, d.Mute { d with log := d.log ++ [.closed] } :=
    fun d => ⟨fun _ => ⟨rfl, rfl⟩, [.closed], rfl, by simp⟩
  exact (hdown.trans (mute_rejectAll _ _)).trans (hclosed _)

theorem mute_setPc (c : Calls) (k : ℕ) (pc : Pc) : c.Mute (c.setPc k pc) := by
  refine ⟨fun x => ?_, [], by simp [setPc], by simp⟩
  rw [setPc_calls]
  split
  next h => rw [h]; exact ⟨rfl, rfl⟩
  next => exact ⟨rfl, rfl⟩

theorem mute_emitReconnect (c : Calls) : c.Mute c.emitReconnect := by
  refine ⟨fun k => ?_, [.reconnect], rfl, by simp⟩
  change (wakeOne (c.calls k)).method = _ ∧ (wakeOne (c.calls k)).params = _
  rcases wakeOne_eq (c.calls k) with h | ⟨due, -, h⟩ <;> rw [h] <;> exact ⟨rfl, rfl⟩

theorem mute_removeAllListeners (c : Calls) : c.Mute c.removeAllListeners := by
  refine ⟨fun k => ?_, [], by simp [removeAllListeners], by simp⟩
  change (unlistenOne (c.calls k)).method = _ ∧ (unlistenOne (c.calls k)).params = _
  unfold unlistenOne
  split <;> exact ⟨rfl, rfl⟩

theorem requests_attempt {c : Calls} (hi : c.Inv) (mp : Msgpack) (k : ℕ) :
    (c.attempt mp k).requests = c.requests ++ (c.outgoing mp k).toList := by
  have hcalls : ∀ x, ((c.attempt mp k).calls x).method = (c.calls x).method ∧
      ((c.attempt mp k).calls x).params = (c.calls x).params := by
    have hset : (c.attempt mp k).calls = (c.setPc k (.awaiting c.nextAttempt)).calls := by
      unfold attempt
      dsimp only
      split
      · split <;> rfl
      · rfl
    rw [hset]
    exact (mute_setPc c k _).calls
  obtain ⟨hm, hp⟩ := hcalls k
  by_cases hconn : c.connected = true
  · by_cases henc : (mp.encode (request (nextMsgId c.msgid) (c.calls k).method (c.calls k).params)).isSome
    · have hlog : (c.attempt mp k).log = c.log ++
          [.started k c.nextAttempt, .wrote k c.nextAttempt (nextMsgId c.msgid)] := by
        obtain ⟨bs, hbs⟩ := Option.isSome_iff_exists.mp henc
        simp [attempt, hconn, encodeRequest, hbs, enter]
      rw [requests_append hi (fun x _ => hcalls x) hlog]
      have hw : (c.attempt mp k).written (.wrote k c.nextAttempt (nextMsgId c.msgid)) =
          some (request (nextMsgId c.msgid) (c.calls k).method (c.calls k).params) := by
        simp only [written, hm, hp]
      have hs : (c.attempt mp k).written (.started k c.nextAttempt) = none := rfl
      simp [outgoing, hconn, henc, hw, hs]
    · have hlog : (c.attempt mp k).log = c.log ++ [.started k c.nextAttempt,
          .settled k c.nextAttempt none (.failure .encoding)] := by
        have hnone := Option.not_isSome_iff_eq_none.mp henc
        simp [attempt, hconn, encodeRequest, hnone, enter]
      rw [requests_append hi (fun x _ => hcalls x) hlog]
      simp [outgoing, henc, written]
  · have hlog : (c.attempt mp k).log = c.log ++ [.started k c.nextAttempt,
        .settled k c.nextAttempt none (.failure (.connection "Not connected"))] := by
      simp [attempt, hconn, enter]
    rw [requests_append hi (fun x _ => hcalls x) hlog]
    simp [outgoing, hconn, written]

theorem requests_callWithOptions {c : Calls} (hi : c.Inv) (mp : Msgpack) (method : String)
    (params : List JsValue) (opts : CallOptions) :
    (c.callWithOptions mp method params opts).requests =
      c.requests ++ ((c.invoke method params opts).outgoing mp c.nextCall).toList := by
  have hinvoke : (c.invoke method params opts).requests = c.requests := by
    have hlog : (c.invoke method params opts).log = c.log ++ [] := (List.append_nil _).symm
    rw [requests_append hi (fun k hk => ?_) hlog, List.filterMap_nil, List.append_nil]
    have hne : k ≠ c.nextCall := by omega
    simp [invoke, hne]
  rw [← hinvoke]
  exact requests_attempt (inv_invoke hi method params opts) mp c.nextCall

theorem resume_plain {c : Calls} {k : ℕ} (hr : c.retries k = false) (mp : Msgpack) :
    c.resume mp k = c ∨ ∃ pc, c.resume mp k = c.setPc k pc := by
  unfold resume
  split
  · split
    · exact Or.inl rfl
    · exact Or.inr ⟨_, rfl⟩
    · unfold caught
      dsimp only
      split
      · exact Or.inr ⟨_, rfl⟩
      · split <;> exact Or.inr ⟨_, rfl⟩
  next hpc =>
    unfold retries at hr
    rw [hpc] at hr
    contradiction
  · exact Or.inr ⟨_, rfl⟩
  · exact Or.inl rfl

theorem mute_resume {c : Calls} {k : ℕ} (hr : c.retries k = false) (mp : Msgpack) :
    c.Mute (c.resume mp k) := by
  rcases resume_plain hr mp with h | ⟨pc, h⟩
  · rw [h]
    exact .rfl
  · rw [h]
    exact mute_setPc ..

theorem resume_retries {c : Calls} {k : ℕ} (hr : c.retries k = true) (mp : Msgpack) :
    c.resume mp k = c.attempt mp k := by
  have hpc : (c.calls k).pc = .woken true := by
    unfold retries at hr
    split at hr
    next b hb => rw [hb, hr]
    next => contradiction
  unfold resume
  rw [hpc]

theorem requests_resume {c : Calls} (hi : c.Inv) (mp : Msgpack) (k : ℕ) :
    (c.resume mp k).requests =
      c.requests ++ (if c.retries k then c.outgoing mp k else none).toList := by
  cases hr : c.retries k with
  | false => simp [(mute_resume hr mp).requests hi]
  | true =>
    rw [resume_retries hr mp, if_pos rfl]
    exact requests_attempt hi mp k

end Calls

/-! ### What a step adds to the wire -/

namespace Link

def requests (l : Link) : List JsValue := (l.sent.map Frame.message).filter isRequest

theorem requests_write (l : Link) (message : JsValue) (response : Option (MapKey × Author)) :
    (l.write message response).requests.Sublist (l.requests ++ [message].filter isRequest) := by
  rcases l.write_cases message response with ⟨-, h⟩ | ⟨c, -, h⟩
  · rw [h]
    exact List.sublist_append_left _ _
  · rw [h]
    unfold requests
    rw [List.map_append, List.filter_append]
    exact List.Sublist.refl _

theorem requests_send {message : JsValue} (hm : isRequest message = false) (mp : Msgpack) (l : Link)
    (response : Option (MapKey × Author)) : (l.send mp message response).requests = l.requests := by
  rcases l.send_cases mp message response with h | ⟨c, -, h⟩
  · rw [h]
  · rw [h]
    unfold requests
    simp [hm]

theorem requests_congr {l m : Link} (h : m.sent = l.sent) : m.requests = l.requests := by
  unfold requests
  rw [h]

end Link

namespace Service

theorem requests_post (w : Service) (message : Option JsValue) :
    (w.post message).link.requests.Sublist
      (w.link.requests ++ message.toList.filter isRequest) := by
  cases message with
  | none => exact List.sublist_append_left _ _
  | some m => exact w.link.requests_write m none

theorem requests_drain (mp : Msgpack) (es : List (MapKey × InFlight)) :
    ∀ l : Link, (drain mp es l).requests = l.requests := by
  induction es with
  | nil => exact fun _ => rfl
  | cons p rest ih =>
    intro l
    rw [drain, ih]
    exact Link.requests_send rfl mp l _

theorem requests_shut (mp : Msgpack) (w : Service) (connected : Bool) :
    (w.shut mp connected).link.requests = w.link.requests := by
  unfold shut
  dsimp only
  split
  · exact requests_drain mp _ _
  · rfl

theorem requests_settle (mp : Msgpack) (w : Service) (t : ℕ) (o : Outcome) :
    (w.settle mp t o).link.requests = w.link.requests := by
  rcases settle_cases mp w t o with ⟨-, h⟩ | ⟨message, hrep, -, h⟩
  · rw [h]
  · obtain ⟨err, result, hm, -⟩ := reply_shape hrep
    rw [h]
    exact Link.requests_send (by rw [hm]; rfl) mp w.link _

theorem requests_refuse (mp : Msgpack) (w : Service) (c : ℕ) (msgid : JsValue)
    (method : Option String) : (w.refuse mp c msgid method).link.requests = w.link.requests := by
  unfold refuse
  cases method with
  | none => rfl
  | some text => exact Link.requests_send rfl mp w.link _

end Service

/-! ### The bridge -/

namespace Bridge

theorem calls_inv {host : Host} {ok : Guard Bridge Event} {s : Bridge} (h : (machine host).Reach ok s) :
    s.calls.Inv :=
  Calls.inv_reach (calls_reach (G := fun _ _ => True) ⟨fun _ => trivial, fun _ _ _ => trivial⟩
    (fun _ _ _ _ => trivial) h)

/-- Every REQUEST on the wire was recorded by the attempt that wrote it, in the same order. -/
def Recorded (s : Bridge) : Prop := s.service.link.requests.Sublist s.calls.requests

theorem Recorded.post {s t : Bridge} (h : s.Recorded) {message : Option JsValue}
    (hcalls : t.calls.requests = s.calls.requests ++ message.toList)
    (hservice : t.service = s.service.post message) : t.Recorded := by
  unfold Recorded
  rw [hcalls, hservice]
  have hnew : (message.toList.filter isRequest).Sublist message.toList := List.filter_sublist
  exact (Service.requests_post _ _).trans (h.append hnew)

theorem Recorded.keep {s t : Bridge} (h : s.Recorded) (hcalls : t.calls.requests = s.calls.requests)
    (hservice : t.service.link.requests = s.service.link.requests) : t.Recorded := by
  unfold Recorded
  rw [hcalls, hservice]
  exact h

theorem recorded_call {host : Host} {s : Bridge} (hi : s.calls.Inv) (h : s.Recorded)
    (method : String) (params : List JsValue) (opts : CallOptions) :
    (s.callWithOptions host method params opts).Recorded :=
  h.post (Calls.requests_callWithOptions hi host.mp method params opts) rfl

theorem recorded_calling {host : Host} {s t : Bridge} (hi : s.calls.Inv) (h : s.Recorded)
    (hc : Calling host s t) : t.Recorded := by
  rcases hc.2 with ⟨hcalls, hservice⟩ | ⟨method, params, opts, hcalls, hservice⟩
  · exact h.keep (by rw [hcalls]) (by rw [hservice])
  · have hcall : (s.callWithOptions host method params opts).Recorded :=
      recorded_call hi h method params opts
    unfold Recorded
    rw [hcalls, hservice]
    exact hcall

theorem recorded_replayNext {host : Host} {s : Bridge} (hi : s.calls.Inv) (h : s.Recorded) (r : ℕ)
    (todo : List String) : (s.replayNext host r todo).Recorded := by
  cases todo with
  | nil => exact h
  | cons m rest => exact recorded_call hi h "$/register" [.str m] ⟨none, none⟩

theorem recorded_dispatch {host : Host} {s : Bridge} (hi : s.calls.Inv) (h : s.Recorded)
    (thrower : Option ℕ) : (s.dispatch host thrower).Recorded := by
  rcases dispatch_cases host s thrower with ⟨hc, hs, -⟩ | ⟨msg, rest, -, hc, hs, -⟩
  · exact h.keep (by rw [hc]) (by rw [hs])
  · unfold Recorded
    rw [hc, hs]
    rcases handleMessage_cases host s msg thrower with
      ⟨hs, hc | ⟨id, r, hc⟩⟩ | ⟨hc, ⟨msgid, name, params, handler, hs⟩ | ⟨msgid, name, hs⟩⟩
    · exact h.keep (by rw [hc]) (by rw [hs])
    · exact h.keep (by rw [hc]; exact (Calls.mute_respond ..).requests hi) (by rw [hs])
    · exact h.keep (by rw [hc]) (by rw [hs]; rfl)
    · exact h.keep (by rw [hc]) (by rw [hs]; exact Service.requests_refuse ..)

theorem recorded_close {host : Host} {s : Bridge} (hi : s.calls.Inv) (h : s.Recorded) :
    (s.close host).Recorded := by
  have hshut := Service.requests_shut host.mp s.service s.calls.connected
  rcases close_parts host s with ⟨-, hc, hs⟩ | ⟨-, hc, hs⟩
  · unfold Recorded
    rw [hc, hs]
    exact recorded_call (s := { s with service := s.service.shut host.mp s.calls.connected }) hi
      (h.keep rfl hshut) "$/reset" [] ⟨some 500, none⟩
  · exact h.keep (by rw [hc]) (by rw [hs]; exact (Link.requests_congr (Link.close_sent _)).trans hshut)

theorem recorded_resumeReplay {host : Host} {s : Bridge} (hi : s.calls.Inv) (h : s.Recorded) (r : ℕ) :
    (s.resumeReplay host r).Recorded := by
  have hup : s.connected.calls.Inv := Calls.inv_apply hi host.mp .connected rfl
  have hconn : s.connected.Recorded :=
    h.keep (Calls.Mute.requests ⟨fun _ => ⟨rfl, rfl⟩, [], (List.append_nil _).symm, by simp⟩ hi) rfl
  have hr := resumes host s r
  generalize s.resumeReplay host r = t at hr ⊢
  cases hr with
  | idle => exact h
  | dialed => exact recorded_replayNext hup hconn r s.methods
  | next todo => exact recorded_replayNext hi h r todo
  | throws => exact h
  | returned => exact h.keep ((Calls.mute_emitReconnect s.calls).requests hi) rfl
  | caught => exact h.keep rfl (Link.requests_congr (Link.caught_sent ..))

theorem recorded_resumeClose {s : Bridge} (hi : s.calls.Inv) (h : s.Recorded) (x : ℕ) :
    (s.resumeClose x).Recorded := by
  unfold resumeClose
  split
  · exact h
  · exact h.keep rfl (Link.requests_congr (Link.close_sent _))
  · exact h.keep ((Calls.mute_removeAllListeners s.calls).requests hi) rfl

theorem recorded_apply {host : Host} {s : Bridge} (hi : s.calls.Inv) (h : s.Recorded) (e : Event) :
    (s.apply host e).Recorded := by
  cases e with
  | tick ms =>
    exact h.keep (Calls.Mute.requests ⟨fun _ => ⟨rfl, rfl⟩, [], (List.append_nil _).symm, by simp⟩ hi) rfl
  | callWithOptions method params opts => exact recorded_call hi h method params opts
  | notify method params =>
    change (s.notify host method params).Recorded
    unfold notify
    split
    · have hpost := s.service.requests_post (some (notification method params))
      unfold Recorded
      rw [show (some (notification method params)).toList.filter isRequest = [] from rfl,
        List.append_nil] at hpost
      exact hpost.trans h
    · exact h
  | provide method handler => exact recorded_calling hi h (calling_provide host s method handler)
  | onNotify method handler => exact recorded_calling hi h (calling_onNotify host s method handler)
  | unsubscribe method handler =>
    exact recorded_calling hi h (calling_unsubscribe host s method handler)
  | resumeRegistration g => exact recorded_calling hi h (calling_resumeRegistration host s g)
  | listen present => exact h
  | close => exact recorded_close hi h
  | dispatch thrower => exact recorded_dispatch hi h thrower
  | settle t o => exact h.keep rfl (Service.requests_settle host.mp s.service t o)
  | data c chunk => exact h
  | broken c destroyed => exact h
  | closed c =>
    exact h.keep ((Calls.mute_onTransportClose s.calls).requests hi)
      (Link.requests_congr (Link.closed_sent ..))
  | opened r => exact h
  | refused r => exact h.keep rfl (Link.requests_congr (Link.refused_sent ..))
  | callTimer a => exact h.keep ((Calls.mute_expire s.calls a).requests hi) rfl
  | waitTimer k => exact h.keep ((Calls.mute_setPc s.calls k _).requests hi) rfl
  | reconnectTimer => exact h
  | resumeCall k => exact h.post (Calls.requests_resume hi host.mp k) rfl
  | resumeReplay r => exact recorded_resumeReplay hi h r
  | resumeClose x => exact recorded_resumeClose hi h x

theorem recorded_reach {host : Host} {ok : Guard Bridge Event} {s : Bridge}
    (h : (machine host).Reach ok s) : s.Recorded := by
  refine h.invariant ?_ ?_
  · rintro s rfl
    exact List.Sublist.refl _
  · intro s e t hreach hr hs _
    obtain ⟨-, rfl⟩ := Machine.ofEnabled_step.mp hs
    exact recorded_apply (calls_inv hreach) hr e

end Bridge

end UnoQ.Client
