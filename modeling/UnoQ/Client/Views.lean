import UnoQ.Client.Bridge

/-!
# The bridge and its parts

Each part of a bridge goes through a run of its own machine: every step of the bridge is
answered there by no step, by one, or by two. What is proved of the parts therefore
holds of the bridge.
-/

namespace UnoQ.Client.Bridge
open Codec Transition BigEndian

/-! ### What the operations do to the parts -/

theorem callWithOptions_calls (host : Host) (s : Bridge) (method : String) (params : List JsValue)
    (opts : CallOptions) : (s.callWithOptions host method params opts).calls =
      s.calls.callWithOptions host.mp method params opts := rfl

theorem outcome_eq_some {s : Bridge} {k : ℕ} {r : Settlement} :
    s.outcome k = some r ↔ (s.calls.calls k).pc = .done r := by
  unfold outcome
  split
  next r' h => rw [h, Option.some.injEq, Pc.done.injEq]
  next h => exact iff_of_false (by simp) (h r)

/-- What a user's operation comes to for the calls and the service: nothing, or one call. -/
def Calling (host : Host) (s t : Bridge) : Prop :=
  t.receiver = s.receiver ∧ ((t.calls = s.calls ∧ t.service = s.service) ∨
    ∃ method params opts, t.calls = (s.callWithOptions host method params opts).calls ∧
      t.service = (s.callWithOptions host method params opts).service)

theorem calling_provide (host : Host) (s : Bridge) (method : String) (handler : ℕ) :
    Calling host s (s.provide host method handler) := by
  unfold provide
  split
  · exact ⟨rfl, Or.inl ⟨rfl, rfl⟩⟩
  · exact ⟨rfl, Or.inr ⟨"$/register", [.str method], ⟨none, none⟩, rfl, rfl⟩⟩

theorem calling_onNotify (host : Host) (s : Bridge) (method : String) (handler : ℕ) :
    Calling host s (s.onNotify host method handler) := by
  unfold onNotify
  split
  · exact ⟨rfl, Or.inl ⟨rfl, rfl⟩⟩
  · dsimp only
    split
    · exact ⟨rfl, Or.inl ⟨rfl, rfl⟩⟩
    · exact ⟨rfl, Or.inr ⟨"$/register", [.str method], ⟨none, none⟩, rfl, rfl⟩⟩

theorem calling_unsubscribe (host : Host) (s : Bridge) (method : String) (handler : ℕ) :
    Calling host s (s.unsubscribe method handler) := by
  unfold unsubscribe
  split <;> exact ⟨rfl, Or.inl ⟨rfl, rfl⟩⟩

theorem calling_resumeRegistration (host : Host) (s : Bridge) (g : ℕ) :
    Calling host s (s.resumeRegistration g) := by
  unfold resumeRegistration
  split
  · exact ⟨rfl, Or.inl ⟨rfl, rfl⟩⟩
  · split <;> exact ⟨rfl, Or.inl ⟨rfl, rfl⟩⟩
  · split <;> exact ⟨rfl, Or.inl ⟨rfl, rfl⟩⟩

theorem handleMessage_cases (host : Host) (s : Bridge) (msg : List JsValue) (thrower : Option ℕ) :
    ((s.handleMessage host msg thrower).service = s.service ∧
      ((s.handleMessage host msg thrower).calls = s.calls ∨
        ∃ id r, (s.handleMessage host msg thrower).calls = s.calls.respond id r)) ∨
    ((s.handleMessage host msg thrower).calls = s.calls ∧
      ((∃ msgid name params handler, (s.handleMessage host msg thrower).service =
          s.service.receive s.receiver.conn msgid name params handler) ∨
        ∃ msgid name, (s.handleMessage host msg thrower).service =
          s.service.refuse host.mp s.receiver.conn msgid name)) := by
  unfold handleMessage handleResponse handleRequest handleNotify
  dsimp only
  split
  · split
    · exact Or.inl ⟨rfl, Or.inl rfl⟩
    · split
      · exact Or.inl ⟨rfl, Or.inl rfl⟩
      · exact Or.inl ⟨rfl, Or.inr ⟨_, _, rfl⟩⟩
  · split
    · split
      · exact Or.inr ⟨rfl, Or.inl ⟨_, _, _, _, rfl⟩⟩
      · exact Or.inr ⟨rfl, Or.inr ⟨_, _, rfl⟩⟩
    · split <;> exact Or.inl ⟨rfl, Or.inl rfl⟩

theorem dispatch_cases (host : Host) (s : Bridge) (thrower : Option ℕ) :
    ((s.dispatch host thrower).calls = s.calls ∧ (s.dispatch host thrower).service = s.service ∧
      (s.dispatch host thrower).receiver = s.receiver.next) ∨
    ∃ msg rest, s.receiver.inbox = .arr msg :: rest ∧
      (s.dispatch host thrower).calls = (s.handleMessage host msg thrower).calls ∧
      (s.dispatch host thrower).service = (s.handleMessage host msg thrower).service ∧
      (s.dispatch host thrower).receiver =
        if s.throws host msg thrower then s.receiver.next.abort else s.receiver.next := by
  unfold dispatch
  split
  next msg rest hin =>
    refine Or.inr ⟨msg, rest, hin, ?_⟩
    dsimp only
    split
    next ht => exact ⟨rfl, rfl, rfl⟩
    next ht => exact ⟨rfl, rfl, rfl⟩
  next => exact Or.inl ⟨rfl, rfl, rfl⟩

/-- `close` drains the table and then calls the router or ends the connection. -/
theorem close_parts (host : Host) (s : Bridge) :
    (s.calls.connected = true ∧
      (s.close host).calls = s.calls.callWithOptions host.mp "$/reset" [] ⟨some 500, none⟩ ∧
      (s.close host).service = (s.service.shut host.mp s.calls.connected).post
        ((s.calls.invoke "$/reset" [] ⟨some 500, none⟩).outgoing host.mp s.calls.nextCall)) ∨
    (s.calls.connected = false ∧ (s.close host).calls = s.calls ∧
      (s.close host).service = { s.service.shut host.mp s.calls.connected with
        link := (s.service.shut host.mp s.calls.connected).link.close }) := by
  unfold close
  dsimp only
  split
  next h => exact Or.inl ⟨h, rfl, rfl⟩
  next h => exact Or.inr ⟨Bool.not_eq_true _ ▸ h, rfl, rfl⟩

theorem close_receiver (host : Host) (s : Bridge) : (s.close host).receiver = s.receiver := by
  unfold close
  dsimp only
  split
  · exact rfl
  · rfl

theorem replayNext_calls (host : Host) (s : Bridge) (r : ℕ) (todo : List String) :
    (s.replayNext host r todo).calls = s.calls ∨ ∃ m, (s.replayNext host r todo).calls =
      s.calls.callWithOptions host.mp "$/register" [.str m] ⟨none, none⟩ := by
  cases todo with
  | nil => exact Or.inl rfl
  | cons m rest => exact Or.inr ⟨m, rfl⟩

theorem replayNext_receiver (host : Host) (s : Bridge) (r : ℕ) (todo : List String) :
    (s.replayNext host r todo).receiver = s.receiver := by
  cases todo with
  | nil => rfl
  | cons m rest => rfl

/-- What `doReconnect` does after an `await`, by where it stands. -/
inductive Resumes (host : Host) (s : Bridge) (r : ℕ) : Bridge → Prop
  | idle : s.replays r = .idle → Resumes host s r s
  | dialed : s.replays r = .dialed → Resumes host s r (s.connected.replayNext host r s.methods)
  | next (todo : List String) (k : ℕ) : s.replays r = .registering todo k →
      (∀ err, s.outcome k = some (.failure err) → s.errorListener = true) →
      Resumes host s r (s.replayNext host r todo)
  | throws (todo : List String) (k : ℕ) (err : BridgeError) : s.replays r = .registering todo k →
      s.outcome k = some (.failure err) → s.errorListener = false →
      Resumes host s r (s.setReplay r .threw)
  | returned : s.replays r = .returned →
      Resumes host s r ({ s with calls := s.calls.emitReconnect }.setReplay r .idle)
  | caught : s.replays r = .threw → Resumes host s r ((s.caught host).setReplay r .idle)

theorem resumes (host : Host) (s : Bridge) (r : ℕ) : Resumes host s r (s.resumeReplay host r) := by
  unfold resumeReplay
  split
  next h => exact .idle h
  next h => exact .dialed h
  next todo k h =>
    split
    next err herr =>
      split
      next hl => exact .next todo k h fun _ _ => hl
      next hl => exact .throws todo k err h herr (Bool.not_eq_true _ ▸ hl)
    next hne => exact .next todo k h fun err herr => absurd herr (hne err)
  next h => exact .returned h
  next h => exact .caught h

theorem resumeClose_calls (s : Bridge) (x : ℕ) :
    (s.resumeClose x).calls = s.calls ∨ (s.resumeClose x).calls = s.calls.removeAllListeners := by
  unfold resumeClose
  split
  · exact Or.inl rfl
  · exact Or.inl rfl
  · exact Or.inr rfl

theorem resumeClose_receiver (s : Bridge) (x : ℕ) : (s.resumeClose x).receiver = s.receiver := by
  unfold resumeClose
  split <;> rfl

/-! ### Outbound calls -/

/-- A condition on what a step does to the calls that the `connected` flag has no part in. -/
structure FlagFree (G : Calls → Calls → Prop) : Prop where
  up : ∀ c : Calls, G c { c with connected := true }
  from_up : ∀ c d : Calls, G c d → G { c with connected := true } d

section calls

variable {host : Host} {G : Calls → Calls → Prop} {init : Calls → Prop}

/-- A run of the calls, from wherever. -/
abbrev CallsRun (host : Host) (init : Calls → Prop) (G : Calls → Calls → Prop) (c : Calls) : Prop :=
  (Machine.ofEnabled init (fun c e => c.enabled e = true) (Calls.apply host.mp)).Reach
    (fun c _ d => G c d) c

theorem replayNext_reach {s u : Bridge} (ih : CallsRun host init G u.calls)
    {r : ℕ} {todo : List String} (hs : s.calls = u.calls)
    (hg : G u.calls (s.replayNext host r todo).calls) :
    CallsRun host init G (s.replayNext host r todo).calls := by
  rcases replayNext_calls host s r todo with h | ⟨m, h⟩
  · rw [h, hs]
    exact ih
  · rw [h, hs] at hg ⊢
    exact ih.take (.callWithOptions _ _ _) rfl hg

theorem calling_reach {s t : Bridge} (ih : CallsRun host init G s.calls)
    (hc : Calling host s t) (hg : G s.calls t.calls) :
    CallsRun host init G t.calls := by
  rcases hc.2 with ⟨h, -⟩ | ⟨method, params, opts, h, -⟩
  · rw [h]
    exact ih
  · rw [h, callWithOptions_calls] at hg ⊢
    exact ih.take (.callWithOptions _ _ _) rfl hg

theorem calls_step {s : Bridge} (hG : FlagFree G)
    (ih : CallsRun host init G s.calls) (e : Event)
    (he : s.enabled e = true) (hg : G s.calls (s.apply host e).calls) :
    CallsRun host init G (s.apply host e).calls := by
  cases e with
  | tick ms => exact ih.take (.tick ms) rfl hg
  | callWithOptions method params opts =>
    exact calling_reach ih ⟨rfl, Or.inr ⟨_, _, _, rfl, rfl⟩⟩ hg
  | notify method params =>
    exact ih
  | provide method handler => exact calling_reach ih (calling_provide ..) hg
  | onNotify method handler => exact calling_reach ih (calling_onNotify ..) hg
  | unsubscribe method handler => exact calling_reach ih (calling_unsubscribe ..) hg
  | resumeRegistration g => exact calling_reach ih (calling_resumeRegistration ..) hg
  | close =>
    change G s.calls (s.close host).calls at hg
    change CallsRun host init G (s.close host).calls
    rcases close_parts host s with ⟨-, h, -⟩ | ⟨-, h, -⟩
    · rw [h] at hg ⊢
      exact ih.take (.callWithOptions _ _ _) rfl hg
    · rw [h]
      exact ih
  | dispatch thrower =>
    change G s.calls (s.dispatch host thrower).calls at hg
    change CallsRun host init G (s.dispatch host thrower).calls
    rcases dispatch_cases host s thrower with ⟨h, -⟩ | ⟨msg, rest, -, h, -⟩
    · rw [h]
      exact ih
    · rw [h] at hg ⊢
      rcases handleMessage_cases host s msg thrower with ⟨-, hc | ⟨id, r, hc⟩⟩ | ⟨hc, -⟩
      · rw [hc]
        exact ih
      · rw [hc] at hg ⊢
        exact ih.take (.respond id r) rfl hg
      · rw [hc]
        exact ih
  | closed c => exact ih.take .onTransportClose rfl hg
  | callTimer a =>
    have ha : s.idle = true ∧ s.calls.expires a = true := by simpa [enabled] using he
    exact ih.take (.expire a) ha.2 hg
  | waitTimer k =>
    have hk : s.idle = true ∧ s.calls.givesUp k = true := by simpa [enabled] using he
    exact ih.take (.giveUp k) hk.2 hg
  | resumeCall k =>
    have hk : s.quiet = true ∧ s.calls.ready k = true := by simpa [enabled] using he
    exact ih.take (.resume k) hk.2 hg
  | resumeReplay r =>
    change G s.calls (s.resumeReplay host r).calls at hg
    change CallsRun host init G (s.resumeReplay host r).calls
    have hr := resumes host s r
    generalize s.resumeReplay host r = t at hr hg ⊢
    cases hr with
    | idle => exact ih
    | dialed =>
      have hup := ih.take .connected rfl (hG.up s.calls)
      exact replayNext_reach (u := s.connected) hup rfl (hG.from_up _ _ hg)
    | next => exact replayNext_reach ih rfl hg
    | throws => exact ih
    | returned => exact ih.take .emitReconnect rfl hg
    | caught => exact ih
  | resumeClose x =>
    change G s.calls (s.resumeClose x).calls at hg
    change CallsRun host init G (s.resumeClose x).calls
    rcases resumeClose_calls s x with h | h
    · rw [h]
      exact ih
    · rw [h] at hg ⊢
      exact ih.take .removeAllListeners rfl hg
  | _ => exact ih

theorem calls_reach {ok : Guard Bridge Event} (hG : FlagFree G)
    (hok : ∀ s e t, ok s e t → G s.calls t.calls) {s : Bridge} (h : (machine host).Reach ok s) :
    (Calls.machine host.mp).Reach (fun c _ d => G c d) s.calls := by
  refine h.simulation Bridge.calls ?_ ?_
  · rintro s rfl
    rfl
  · intro s e t _ ih hs hg
    obtain ⟨he, rfl⟩ := Machine.ofEnabled_step.mp hs
    exact calls_step hG ih e he (hok _ _ _ hg)

/-- What one step of a bridge does to its calls. -/
theorem calls_apply (host : Host) {s : Bridge} {e : Event} (he : s.enabled e = true) :
    CallsRun host (· = s.calls) (fun _ _ => True) (s.apply host e).calls := by
  have hstart : CallsRun host (· = s.calls) (fun _ _ => True) s.calls := .init rfl
  exact calls_step ⟨fun _ => trivial, fun _ _ _ => trivial⟩ hstart e he trivial

end calls

/-! ### Inbound bytes -/

theorem apply_receiver (host : Host) (s : Bridge) (e : Event) (hdata : ∀ c chunk, e ≠ .data c chunk)
    (hdispatch : ∀ thrower, e ≠ .dispatch thrower) : (s.apply host e).receiver = s.receiver := by
  cases e with
  | data c chunk => exact absurd rfl (hdata c chunk)
  | dispatch thrower => exact absurd rfl (hdispatch thrower)
  | callWithOptions method params opts => rfl
  | notify method params => rfl
  | provide method handler => exact (calling_provide ..).1
  | onNotify method handler => exact (calling_onNotify ..).1
  | unsubscribe method handler => exact (calling_unsubscribe host s method handler).1
  | resumeRegistration g => exact (calling_resumeRegistration host s g).1
  | close => exact close_receiver ..
  | resumeCall k => rfl
  | resumeReplay r =>
    change (s.resumeReplay host r).receiver = s.receiver
    have hr := resumes host s r
    generalize s.resumeReplay host r = t at hr ⊢
    cases hr with
    | dialed => exact replayNext_receiver ..
    | next => exact replayNext_receiver ..
    | _ => rfl
  | resumeClose x => exact resumeClose_receiver ..
  | _ => rfl

theorem idle_quiet {s : Bridge} (h : s.idle = true) : s.receiver.inbox = [] := by
  have h' : s.quiet = true ∧ _ := of_decide_eq_true h
  exact List.isEmpty_iff.mp h'.1

theorem receiver_reach {host : Host} {okR : Guard Receiver Receiver.Event} {ok : Guard Bridge Event}
    (hdata : ∀ s c chunk t, ok s (.data c chunk) t → okR s.receiver (.onData c chunk) t.receiver)
    (hnext : ∀ r t, okR r .next t)
    (habort : ∀ s thrower t, ok s (.dispatch thrower) t → ∀ msg rest,
      s.receiver.inbox = .arr msg :: rest → s.throws host msg thrower = true →
      okR s.receiver.next .abort s.receiver.next.abort)
    {s : Bridge} (h : (machine host).Reach ok s) : (Receiver.machine host.mp).Reach okR s.receiver := by
  refine h.simulation Bridge.receiver ?_ ?_
  · rintro s rfl
    rfl
  · intro s e t _ ih hs hg
    obtain ⟨he, rfl⟩ := Machine.ofEnabled_step.mp hs
    by_cases hd : ∃ c chunk, e = .data c chunk
    · obtain ⟨c, chunk, rfl⟩ := hd
      have hidle : s.idle = true ∧ s.service.reads c = true := by simpa [enabled] using he
      exact ih.take (.onData c chunk) (List.isEmpty_iff.mpr (idle_quiet hidle.1))
        (hdata s c chunk _ hg)
    · by_cases hx : ∃ thrower, e = .dispatch thrower
      · obtain ⟨thrower, rfl⟩ := hx
        have hstep := ih.take .next rfl (hnext _ _)
        change (Receiver.machine host.mp).Reach okR (s.dispatch host thrower).receiver
        rcases dispatch_cases host s thrower with ⟨-, -, hr⟩ | ⟨msg, rest, hin, -, -, hr⟩
        · rw [hr]
          exact hstep
        · rw [hr]
          split
          next ht => exact hstep.take .abort rfl (habort s thrower _ hg msg rest hin ht)
          next => exact hstep
      · rw [apply_receiver host s e (fun c chunk hc => hd ⟨c, chunk, hc⟩)
          (fun thrower ht => hx ⟨thrower, ht⟩)]
        exact ih

/-! ### Inbound requests -/

theorem outgoing_plain {mp : Msgpack} {c : Calls} {k : ℕ} {m : JsValue}
    (h : c.outgoing mp k = some m) : Service.isResponse m = false := by
  unfold Calls.outgoing at h
  dsimp only at h
  split at h
  · cases h
    rfl
  · contradiction

/-- While the loop of `onData` has messages before it, their connection still delivers data. -/
def Reading (s : Bridge) : Prop :=
  s.receiver.inbox ≠ [] → s.service.reads s.receiver.conn = true

theorem post_reads (w : Service) (message : Option JsValue) (c : ℕ) :
    (w.post message).reads c = w.reads c := by
  cases message with
  | none => rfl
  | some m =>
    rcases w.link.write_cases m none with ⟨-, he⟩ | ⟨d, -, he⟩
    · simp only [Service.post, Service.reads, he]
    · simp only [Service.post, Service.reads, he]

theorem send_reads (mp : Msgpack) (w : Service) (message : JsValue)
    (response : Option (MapKey × Author)) (c : ℕ) :
    ({ w with link := w.link.send mp message response } : Service).reads c = w.reads c := by
  obtain ⟨-, hconns, -⟩ := Service.send_socket mp w.link message response
  simp only [Service.reads, hconns]

theorem drain_conns (mp : Msgpack) (es : List (MapKey × InFlight)) :
    ∀ l : Link, (Service.drain mp es l).conns = l.conns := by
  induction es with
  | nil => exact fun _ => rfl
  | cons p rest ih =>
    intro l
    obtain ⟨-, hconns, -⟩ := Service.send_socket mp l (Service.closingReply p.2)
      (some (p.1, .closing))
    rw [Service.drain, ih, hconns]

theorem shut_reads (mp : Msgpack) (w : Service) (connected : Bool) (c : ℕ) :
    (w.shut mp connected).reads c = w.reads c := by
  unfold Service.shut
  dsimp only
  split
  · simp only [Service.reads, drain_conns]
  · rfl

theorem close_reads (w : Service) (c : ℕ) :
    ({ w with link := w.link.close } : Service).reads c = w.reads c := by
  unfold Service.reads Link.close
  split
  · rfl
  next d hd =>
    split
    · rfl
    · simp only [Link.setConn_conns]
      split
      next hcd => rw [hcd]
      next => rfl

theorem settle_reads (mp : Msgpack) (w : Service) (t : ℕ) (o : Outcome) (c : ℕ) :
    (w.settle mp t o).reads c = w.reads c := by
  rcases Service.settle_cases mp w t o with ⟨-, he⟩ | ⟨message, -, -, he⟩
  · rw [he]
    rfl
  · rw [he]
    exact send_reads mp w message (some ((w.tasks t).key, .handler t)) c

theorem handleMessage_reads (host : Host) (s : Bridge) (msg : List JsValue) (thrower : Option ℕ)
    (c : ℕ) : (s.handleMessage host msg thrower).service.reads c = s.service.reads c := by
  rcases handleMessage_cases host s msg thrower with
    ⟨h, -⟩ | ⟨-, ⟨msgid, name, params, handler, h⟩ | ⟨msgid, name, h⟩⟩
  · rw [h]
  · rw [h]
    rfl
  · rw [h]
    unfold Service.refuse
    cases name with
    | none => rfl
    | some text => exact send_reads host.mp { s.service with requests := _ } _ _ c

theorem next_inbox {r : Receiver} (h : r.next.inbox ≠ []) : r.inbox ≠ [] := by
  intro hnil
  unfold Receiver.next at h
  rw [hnil] at h
  exact h hnil

theorem Reading.frame {s t : Bridge} (h : s.Reading) (hreceiver : t.receiver = s.receiver)
    (hreads : ∀ c, t.service.reads c = s.service.reads c) : t.Reading := by
  intro hin
  rw [hreceiver] at hin ⊢
  rw [hreads]
  exact h hin

theorem calling_reading {host : Host} {s t : Bridge} (h : s.Reading) (hc : Calling host s t) :
    t.Reading := by
  refine h.frame hc.1 (fun c => ?_)
  rcases hc.2 with ⟨-, hs⟩ | ⟨method, params, opts, -, hs⟩
  · rw [hs]
  · rw [hs]
    exact post_reads _ _ c

theorem reading_reach {host : Host} {ok : Guard Bridge Event} {s : Bridge}
    (h : (machine host).Reach ok s) : s.Reading := by
  refine h.invariant ?_ ?_
  · rintro s rfl hin
    exact absurd rfl hin
  · intro s e t _ hr hs _
    obtain ⟨he, rfl⟩ := Machine.ofEnabled_step.mp hs
    -- Between two messages of the loop only user code runs, which leaves the connection delivering.
    have hquiet : ∀ b : Bool, (s.quiet && b) = true → (∀ c chunk, e ≠ .data c chunk) →
        (∀ thrower, e ≠ .dispatch thrower) → (s.apply host e).Reading := by
      intro b hb hdata hdispatch hin
      rw [apply_receiver host s e hdata hdispatch] at hin
      have hq : s.quiet = true := by
        rw [Bool.and_eq_true] at hb
        exact hb.1
      exact absurd (List.isEmpty_iff.mp hq) hin
    have hidle : ∀ b : Bool, (s.idle && b) = true → (∀ c chunk, e ≠ .data c chunk) →
        (∀ thrower, e ≠ .dispatch thrower) → (s.apply host e).Reading := by
      intro b hb
      rw [Bool.and_eq_true] at hb
      have h' : s.quiet = true ∧ _ := of_decide_eq_true hb.1
      exact hquiet true (by rw [h'.1]; rfl)
    cases e with
    | tick ms => exact hr
    | callWithOptions method params opts => exact hr.frame rfl (post_reads _ _)
    | notify method params => exact hr.frame rfl (post_reads _ _)
    | provide method handler => exact calling_reading hr (calling_provide host s method handler)
    | onNotify method handler => exact calling_reading hr (calling_onNotify host s method handler)
    | unsubscribe method handler =>
      exact calling_reading hr (calling_unsubscribe host s method handler)
    | listen present => exact hr
    | close =>
      refine hr.frame (close_receiver host s) (fun c => ?_)
      change (s.close host).service.reads c = _
      rcases close_parts host s with ⟨-, -, hs'⟩ | ⟨-, -, hs'⟩
      · rw [hs', post_reads, shut_reads]
      · rw [hs', close_reads, shut_reads]
    | dispatch thrower =>
      intro hin
      change (s.dispatch host thrower).receiver.inbox ≠ [] at hin
      change (s.dispatch host thrower).service.reads (s.dispatch host thrower).receiver.conn = true
      rcases dispatch_cases host s thrower with ⟨-, hserv, hrec⟩ | ⟨msg, rest, -, -, hserv, hrec⟩
      · rw [hrec] at hin ⊢
        rw [hserv, (Receiver.next_conn _).1]
        exact hr (next_inbox hin)
      · rw [hrec] at hin ⊢
        split at hin
        next => exact absurd rfl hin
        next ht =>
          rw [if_neg ht, hserv, handleMessage_reads, (Receiver.next_conn _).1]
          exact hr (next_inbox hin)
    | data c chunk =>
      intro _
      have hc : s.idle = true ∧ s.service.reads c = true := by simpa [enabled] using he
      exact hc.2
    | settle t o => exact hr.frame rfl (settle_reads host.mp s.service t o)
    | broken c destroyed => exact hidle _ he (by simp) (by simp)
    | closed c => exact hidle _ he (by simp) (by simp)
    | opened r => exact hidle _ he (by simp) (by simp)
    | refused r => exact hidle _ he (by simp) (by simp)
    | callTimer a => exact hidle _ he (by simp) (by simp)
    | waitTimer k => exact hidle _ he (by simp) (by simp)
    | reconnectTimer => exact hidle _ he (by simp) (by simp)
    | resumeCall k => exact hquiet _ he (by simp) (by simp)
    | resumeRegistration g => exact hquiet _ he (by simp) (by simp)
    | resumeReplay r => exact hquiet _ he (by simp) (by simp)
    | resumeClose x => exact hquiet _ he (by simp) (by simp)

section service

variable {host : Host} {okS : Guard Service Service.Event} {ok : Guard Bridge Event}
  {init : Service → Prop}

/-- A run of the service, from wherever. -/
abbrev ServiceRun (host : Host) (init : Service → Prop) (okS : Guard Service Service.Event)
    (w : Service) : Prop :=
  (Machine.ofEnabled init (fun w e => w.enabled e = true)
    (Service.apply host.mp host.options)).Reach okS w

/-- What a guard on the steps of a bridge makes sure of for the steps of its service. -/
structure Governs (host : Host) (ok : Guard Bridge Event) (okS : Guard Service Service.Event) :
    Prop where
  plain : ∀ w e v, e.plain = true → okS w e v
  settle : ∀ s t o u, ok s (.settle t o) u → okS s.service (.settle t o) u.service
  shut : ∀ s u, ok s .close u →
    okS s.service (.shut s.calls.connected) (s.service.shut host.mp s.calls.connected)
  close : ∀ s u, ok s .close u → s.calls.connected = false →
    okS (s.service.shut host.mp false) .close u.service
  resumeClose : ∀ s x k u, ok s (.resumeClose x) u → s.closings x = .resetting k →
    okS s.service .close u.service
  opened : ∀ s r u, ok s (.opened r) u → okS s.service (.opened r) u.service
  caught : ∀ s r u, ok s (.resumeReplay r) u → s.replays r = .threw →
    okS s.service (.caught s.calls.now s.errorListener) u.service
  closed : ∀ s c u, ok s (.closed c) u → okS s.service (.closed c s.calls.now) u.service
  broken : ∀ s c d u, ok s (.broken c d) u → okS s.service (.broken c d) u.service

theorem post_reach {w : Service} (hg : Governs host ok okS) (ih : ServiceRun host init okS w)
    {message : Option JsValue} (hm : ∀ m, message = some m → Service.isResponse m = false) :
    ServiceRun host init okS (w.post message) := by
  cases message with
  | none => exact ih
  | some m => exact ih.take (.write m) (by simp [Service.enabled, hm m rfl]) (hg.plain _ _ _ rfl)

theorem calling_service {s t : Bridge} (hg : Governs host ok okS)
    (ih : ServiceRun host init okS s.service) (hc : Calling host s t) :
    ServiceRun host init okS t.service := by
  rcases hc.2 with ⟨-, h⟩ | ⟨method, params, opts, -, h⟩
  · rw [h]
    exact ih
  · rw [h]
    exact post_reach hg ih (fun m hm => outgoing_plain hm)

theorem replayNext_service {s : Bridge} (hg : Governs host ok okS)
    (ih : ServiceRun host init okS s.service) (r : ℕ) (todo : List String) :
    ServiceRun host init okS (s.replayNext host r todo).service := by
  cases todo with
  | nil => exact ih
  | cons m rest => exact post_reach hg ih (fun m hm => outgoing_plain hm)

theorem close_service {s : Bridge} (hg : Governs host ok okS)
    (ih : ServiceRun host init okS s.service) (hok : ok s .close (s.close host)) :
    ServiceRun host init okS (s.close host).service := by
  have hshut := ih.take (.shut s.calls.connected) rfl (hg.shut s _ hok)
  rcases close_parts host s with ⟨-, -, h⟩ | ⟨hc, -, h⟩
  · rw [h]
    exact post_reach hg hshut (fun m hm => outgoing_plain hm)
  · have hclose := hg.close s _ hok hc
    rw [hc] at hshut h
    rw [h] at hclose ⊢
    exact hshut.take .close rfl hclose

/-- While a message waits, its connection is read, so a REQUEST among them is received on it. -/
theorem dispatch_service {s : Bridge} (hg : Governs host ok okS) (hr : s.Reading)
    (ih : ServiceRun host init okS s.service) (thrower : Option ℕ) :
    ServiceRun host init okS (s.dispatch host thrower).service := by
  rcases dispatch_cases host s thrower with ⟨-, h, -⟩ | ⟨msg, rest, hin, -, h, -⟩
  · rw [h]
    exact ih
  · have hreads : s.service.reads s.receiver.conn = true := hr (by simp [hin])
    rw [h]
    rcases handleMessage_cases host s msg thrower with
      ⟨hs, -⟩ | ⟨-, ⟨msgid, name, params, handler, hs⟩ | ⟨msgid, name, hs⟩⟩
    · rw [hs]
      exact ih
    · rw [hs]
      exact ih.take (.receive _ _ _ _ _) hreads (hg.plain _ _ _ rfl)
    · rw [hs]
      exact ih.take (.refuse _ _ _) hreads (hg.plain _ _ _ rfl)

theorem resumeReplay_service {s : Bridge} (hg : Governs host ok okS)
    (ih : ServiceRun host init okS s.service) (r : ℕ)
    (hok : ok s (.resumeReplay r) (s.resumeReplay host r)) :
    ServiceRun host init okS (s.resumeReplay host r).service := by
  have hr := resumes host s r
  generalize s.resumeReplay host r = t at hr hok ⊢
  cases hr with
  | idle => exact ih
  | dialed =>
    have hup := ih.take .reconnected rfl (hg.plain _ _ _ rfl)
    exact replayNext_service (s := s.connected) hg hup r s.methods
  | next todo => exact replayNext_service hg ih r todo
  | throws => exact ih
  | returned => exact ih
  | caught hthrew =>
    exact ih.take (.caught s.calls.now s.errorListener) rfl (hg.caught s r _ hok hthrew)

theorem resumeClose_service {s : Bridge} (hg : Governs host ok okS)
    (ih : ServiceRun host init okS s.service) (x : ℕ)
    (hok : ok s (.resumeClose x) (s.resumeClose x)) :
    ServiceRun host init okS (s.resumeClose x).service := by
  cases hx : s.closings x with
  | idle =>
    have h : (s.resumeClose x).service = s.service := by simp [resumeClose, hx]
    rw [h]
    exact ih
  | resetting k =>
    have h : (s.resumeClose x).service = { s.service with link := s.service.link.close } := by
      simp only [resumeClose, hx]
      rfl
    have hclose := hg.resumeClose s x k _ hok hx
    rw [h] at hclose ⊢
    exact ih.take .close rfl hclose
  | ending conn =>
    have h : (s.resumeClose x).service = s.service := by
      simp only [resumeClose, hx]
      rfl
    rw [h]
    exact ih

theorem service_step {s : Bridge} (hg : Governs host ok okS) (hr : s.Reading)
    (ih : ServiceRun host init okS s.service) (e : Event) (he : s.enabled e = true)
    (hok : ok s e (s.apply host e)) : ServiceRun host init okS (s.apply host e).service := by
  cases e with
  | callWithOptions method params opts => exact post_reach hg ih (fun m hm => outgoing_plain hm)
  | notify method params =>
    refine post_reach hg ih (fun m hm => ?_)
    split at hm
    · cases hm
      rfl
    · contradiction
  | provide method handler => exact calling_service hg ih (calling_provide ..)
  | onNotify method handler => exact calling_service hg ih (calling_onNotify ..)
  | unsubscribe method handler =>
    exact calling_service hg ih (calling_unsubscribe host s method handler)
  | resumeRegistration g => exact calling_service hg ih (calling_resumeRegistration host s g)
  | close => exact close_service hg ih hok
  | dispatch thrower => exact dispatch_service hg hr ih thrower
  | settle t o =>
    have ht : s.settles t o = true ∧ s.service.enabled (.settle t (.thrown none)) = true := by
      simpa [enabled] using he
    exact ih.take (.settle t o) ht.2 (hg.settle s t o _ hok)
  | broken c destroyed => exact ih.take (.broken c destroyed) rfl (hg.broken s c destroyed _ hok)
  | closed c =>
    have hc : s.idle = true ∧ (s.service.link.conns c).status = .opened := by
      simpa [enabled] using he
    exact ih.take (.closed c s.calls.now) (decide_eq_true hc.2) (hg.closed s c _ hok)
  | opened r =>
    have hd : s.idle = true ∧ r ∈ s.service.link.dialing := by simpa [enabled] using he
    exact ih.take (.opened r) (decide_eq_true hd.2) (hg.opened s r _ hok)
  | refused r =>
    have hd : s.idle = true ∧ r ∈ s.service.link.dialing := by simpa [enabled] using he
    exact ih.take (.refused r s.calls.now s.errorListener) (decide_eq_true hd.2)
      (hg.plain _ _ _ rfl)
  | reconnectTimer =>
    have ht : s.service.link.reconnectTimer.isSome = true := by
      cases hn : s.service.link.reconnectTimer with
      | none => simp [enabled, hn] at he
      | some due => rfl
    exact ih.take (.doReconnect s.nextReplay) ht (hg.plain _ _ _ rfl)
  | resumeCall k =>
    refine post_reach hg ih (fun m hm => ?_)
    split at hm
    · exact outgoing_plain hm
    · contradiction
  | resumeReplay r => exact resumeReplay_service hg ih r hok
  | resumeClose x => exact resumeClose_service hg ih x hok
  | _ => exact ih

theorem serviceRun_reach (hg : Governs host ok okS) {s : Bridge} (h : (machine host).Reach ok s) :
    (Service.machine host.mp host.options).Reach okS s.service := by
  refine h.simulation Bridge.service ?_ ?_
  · rintro s rfl
    rfl
  · intro s e t hreach ih hs hok
    obtain ⟨he, rfl⟩ := Machine.ofEnabled_step.mp hs
    exact service_step hg (reading_reach hreach) ih e he hok

/-- The same from a state that a run has reached. -/
theorem serviceRun_since (hg : Governs host ok okS) {s t : Bridge} (hs : (machine host).Reach ok s)
    (h : ((machine host).startingAt s).Reach ok t) :
    ServiceRun host (· = s.service) okS t.service := by
  have hboth : ServiceRun host (· = s.service) okS t.service ∧ t.Reading := by
    refine h.invariant (P := fun t => ServiceRun host (· = s.service) okS t.service ∧ t.Reading) ?_ ?_
    · rintro _ rfl
      exact ⟨.init rfl, reading_reach hs⟩
    · intro u e v hu ih hstep hok
      have hv := (hs.append hu).step (show (machine host).step u e = some v from hstep) hok
      obtain ⟨he, rfl⟩ := Machine.ofEnabled_step.mp (show (machine host).step u e = some v from hstep)
      exact ⟨service_step hg ih.2 ih.1 e he hok, reading_reach hv⟩
  exact hboth.1

theorem Governs.and {ok' : Guard Bridge Event} {okS' : Guard Service Service.Event}
    (h : Governs host ok okS) (h' : Governs host ok' okS') :
    Governs host (ok.and ok') (okS.and okS') where
  plain w e v he := ⟨h.plain w e v he, h'.plain w e v he⟩
  settle s t o u hg := ⟨h.settle s t o u hg.1, h'.settle s t o u hg.2⟩
  shut s u hg := ⟨h.shut s u hg.1, h'.shut s u hg.2⟩
  close s u hg hc := ⟨h.close s u hg.1 hc, h'.close s u hg.2 hc⟩
  resumeClose s x k u hg hx := ⟨h.resumeClose s x k u hg.1 hx, h'.resumeClose s x k u hg.2 hx⟩
  opened s r u hg := ⟨h.opened s r u hg.1, h'.opened s r u hg.2⟩
  caught s r u hg hr := ⟨h.caught s r u hg.1 hr, h'.caught s r u hg.2 hr⟩
  closed s c u hg := ⟨h.closed s c u hg.1, h'.closed s c u hg.2⟩
  broken s c d u hg := ⟨h.broken s c d u hg.1, h'.broken s c d u hg.2⟩

/-- A condition on the settling of handlers only. -/
def OnSettle (okS : Guard Service Service.Event) : Prop :=
  ∀ w e v, (∀ t o, e ≠ .settle t o) → okS w e v

theorem OnSettle.governs (hfree : OnSettle okS)
    (hok : ∀ s t o u, ok s (.settle t o) u → okS s.service (.settle t o) u.service) :
    Governs host ok okS where
  plain w e v he := hfree w e v fun t o h => by simp [h, Service.Event.plain] at he
  settle := hok
  shut _ _ _ := hfree _ _ _ (by simp)
  close _ _ _ _ := hfree _ _ _ (by simp)
  resumeClose _ _ _ _ _ _ := hfree _ _ _ (by simp)
  opened _ _ _ _ := hfree _ _ _ (by simp)
  caught _ _ _ _ _ := hfree _ _ _ (by simp)
  closed _ _ _ _ := hfree _ _ _ (by simp)
  broken _ _ _ _ _ := hfree _ _ _ (by simp)

theorem service_reach (hfree : OnSettle okS)
    (hok : ∀ s t o u, ok s (.settle t o) u → okS s.service (.settle t o) u.service) {s : Bridge}
    (h : (machine host).Reach ok s) :
    (Service.machine host.mp host.options).Reach okS s.service :=
  serviceRun_reach (hfree.governs hok) h

end service

end UnoQ.Client.Bridge
