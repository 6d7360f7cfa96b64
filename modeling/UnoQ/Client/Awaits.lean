import UnoQ.Client.Progress

/-!
# Nothing hangs

Every `await` of the bridge but the one for the end of a connection is for a call, and a call comes to
an end by itself. A registration, a replay and a `close` thus go on whatever the router and the
transport do, as far as time goes on.
-/

namespace UnoQ.Client
open Codec Transition

/-- The call whose promise is awaited. -/
def Registration.awaited : Registration → Option ℕ
  | .idle => none
  | .provide _ _ k => some k
  | .onNotify _ _ k => some k

def Replay.awaited : Replay → Option ℕ
  | .registering _ k => some k
  | _ => none

def Closing.awaited : Closing → Option ℕ
  | .resetting k => some k
  | _ => none

namespace Bridge

/-- What is awaited has begun. -/
structure Awaited (s : Bridge) : Prop where
  registrations : ∀ g k, (s.registrations g).awaited = some k → k < s.calls.nextCall
  replays : ∀ r k, (s.replays r).awaited = some k → k < s.calls.nextCall
  closings : ∀ x k, (s.closings x).awaited = some k → k < s.calls.nextCall

variable {host : Host} {s t : Bridge}

/-- Whatever is awaited after a step was awaited before it, or is a call of the step's own. -/
theorem Awaited.frame (h : s.Awaited) (hborn : s.calls.nextCall ≤ t.calls.nextCall)
    (hg : ∀ g k, (t.registrations g).awaited = some k →
      (s.registrations g).awaited = some k ∨ k < t.calls.nextCall)
    (hr : ∀ r k, (t.replays r).awaited = some k →
      (s.replays r).awaited = some k ∨ k < t.calls.nextCall)
    (hx : ∀ x k, (t.closings x).awaited = some k →
      (s.closings x).awaited = some k ∨ k < t.calls.nextCall) : t.Awaited where
  registrations g k hk := (hg g k hk).elim (fun h' => (h.registrations g k h').trans_le hborn) id
  replays r k hk := (hr r k hk).elim (fun h' => (h.replays r k h').trans_le hborn) id
  closings x k hk := (hx x k hk).elim (fun h' => (h.closings x k h').trans_le hborn) id

theorem Awaited.same (h : s.Awaited) (hborn : s.calls.nextCall ≤ t.calls.nextCall)
    (hg : t.registrations = s.registrations) (hr : t.replays = s.replays)
    (hx : t.closings = s.closings) : t.Awaited := by
  refine h.frame hborn ?_ ?_ ?_
  · intro g k hk
    exact .inl (hg ▸ hk)
  · intro r k hk
    exact .inl (hr ▸ hk)
  · intro x k hk
    exact .inl (hx ▸ hk)

theorem awaited_setReplay (h : s.Awaited) (r : ℕ) {replay : Replay}
    (hk : ∀ k, replay.awaited = some k → k < s.calls.nextCall) : (s.setReplay r replay).Awaited := by
  refine h.frame (Nat.le_refl _) (fun g k hg => .inl hg) ?_ (fun x k hx => .inl hx)
  intro x k hx
  change (Function.update s.replays r replay x).awaited = some k at hx
  rw [Function.update_apply] at hx
  split at hx
  · exact .inr (hk k hx)
  · exact .inl hx

theorem awaited_setClosing (h : s.Awaited) (x : ℕ) {closing : Closing}
    (hk : ∀ k, closing.awaited = some k → k < s.calls.nextCall) : (s.setClosing x closing).Awaited := by
  refine h.frame (Nat.le_refl _) (fun g k hg => .inl hg) (fun r k hr => .inl hr) ?_
  intro y k hy
  change (Function.update s.closings x closing y).awaited = some k at hy
  rw [Function.update_apply] at hy
  split at hy
  · exact .inr (hk k hy)
  · exact .inl hy

theorem callWithOptions_born (host : Host) (s : Bridge) (method : String) (params : List JsValue)
    (opts : CallOptions) :
    (s.callWithOptions host method params opts).calls.nextCall = s.calls.nextCall + 1 := by
  obtain ⟨att, -, -, -, -, hnext, -, -⟩ :=
    Calls.attempt_parts host.mp (s.calls.invoke method params opts) s.calls.nextCall
  exact hnext

theorem awaited_callWithOptions (h : s.Awaited) (method : String) (params : List JsValue)
    (opts : CallOptions) : (s.callWithOptions host method params opts).Awaited := by
  refine h.same ?_ rfl rfl rfl
  rw [callWithOptions_born]
  exact Nat.le_succ _

/-- A registration in progress awaits the call that it has made. -/
theorem awaited_register (h : s.Awaited) (method : String) {f : ℕ → Registration}
    (hf : ∀ k, (f k).awaited = some k) : (s.register host method f).Awaited := by
  have hborn : (s.register host method f).calls.nextCall = s.calls.nextCall + 1 :=
    callWithOptions_born host s "$/register" [.str method] ⟨none, none⟩
  refine h.frame (by omega) ?_ (fun r k hr => .inl hr) (fun x k hx => .inl hx)
  intro g k hg
  change (Function.update s.registrations s.nextRegistration (f s.calls.nextCall) g).awaited =
    some k at hg
  rw [Function.update_apply] at hg
  split at hg
  · rw [hf, Option.some.injEq] at hg
    omega
  · exact .inl hg

theorem awaited_registered (h : s.Awaited) (g : ℕ) : (s.registered g).Awaited := by
  refine h.frame (Nat.le_refl _) ?_ (fun r k hr => .inl hr) (fun x k hx => .inl hx)
  intro x k hx
  change (Function.update s.registrations g .idle x).awaited = some k at hx
  rw [Function.update_apply] at hx
  split at hx
  · contradiction
  · exact .inl hx

theorem awaited_replayNext (h : s.Awaited) (r : ℕ) (todo : List String) :
    (s.replayNext host r todo).Awaited := by
  cases todo with
  | nil => exact awaited_setReplay h r (by simp [Replay.awaited])
  | cons m rest =>
    refine awaited_setReplay (awaited_callWithOptions h _ _ _) r ?_
    intro k hk
    cases hk
    rw [callWithOptions_born]
    exact Nat.lt_succ_self _

theorem awaited_closeTransport (h : s.Awaited) (x : ℕ) : (s.closeTransport x).Awaited := by
  have hended : ({ s with service := { s.service with link := s.service.link.close } } :
    Bridge).Awaited := h.same (Nat.le_refl _) rfl rfl rfl
  exact awaited_setClosing hended x (by simp [Closing.awaited])

theorem awaited_close (h : s.Awaited) : (s.close host).Awaited := by
  have hshut : ({ s with
      service := s.service.shut host.mp s.calls.connected, nextClosing := s.nextClosing + 1 } :
    Bridge).Awaited := h.same (Nat.le_refl _) rfl rfl rfl
  unfold close
  dsimp only
  split
  · refine awaited_setClosing (awaited_callWithOptions hshut _ _ _) _ ?_
    intro k hk
    cases hk
    refine Nat.lt_of_lt_of_eq (Nat.lt_succ_self _) ?_
    exact (callWithOptions_born host _ _ _ _).symm
  · exact awaited_closeTransport hshut _

theorem handleMessage_awaits (host : Host) (s : Bridge) (msg : List JsValue) (thrower : Option ℕ) :
    (s.handleMessage host msg thrower).registrations = s.registrations ∧
      (s.handleMessage host msg thrower).replays = s.replays ∧
      (s.handleMessage host msg thrower).closings = s.closings := by
  unfold handleMessage handleResponse handleRequest handleNotify
  dsimp only
  split_ifs
  · exact ⟨rfl, rfl, rfl⟩
  · split <;> exact ⟨rfl, rfl, rfl⟩
  · split <;> exact ⟨rfl, rfl, rfl⟩
  · exact ⟨rfl, rfl, rfl⟩
  · exact ⟨rfl, rfl, rfl⟩

theorem dispatch_awaits (host : Host) (s : Bridge) (thrower : Option ℕ) :
    (s.dispatch host thrower).registrations = s.registrations ∧
      (s.dispatch host thrower).replays = s.replays ∧
      (s.dispatch host thrower).closings = s.closings := by
  unfold dispatch
  split
  · dsimp only
    split <;> exact handleMessage_awaits host s _ thrower
  · exact ⟨rfl, rfl, rfl⟩

theorem awaited_apply (h : s.Awaited) (e : Event) (he : s.enabled e = true) :
    (s.apply host e).Awaited := by
  have hborn := (keeps_step host he).born
  cases e with
  | callWithOptions method params opts => exact awaited_callWithOptions h ..
  | provide method handler =>
    change (s.provide host method handler).Awaited
    unfold provide
    split
    · exact h.same (Nat.le_refl _) rfl rfl rfl
    · exact awaited_register h method fun k => rfl
  | onNotify method handler =>
    change (s.onNotify host method handler).Awaited
    have hadded : ({ s with notifyHandlers := s.notifyHandlers.set method [] } : Bridge).Awaited :=
      h.same (Nat.le_refl _) rfl rfl rfl
    unfold onNotify
    split
    · exact h.same (Nat.le_refl _) rfl rfl rfl
    · dsimp only
      split
      · exact hadded.same (Nat.le_refl _) rfl rfl rfl
      · exact awaited_register hadded method fun k => rfl
  | unsubscribe method handler =>
    change (s.unsubscribe method handler).Awaited
    unfold unsubscribe
    split
    · exact h
    · exact h.same (Nat.le_refl _) rfl rfl rfl
  | close => exact awaited_close h
  | dispatch thrower =>
    obtain ⟨hg, hr, hx⟩ := dispatch_awaits host s thrower
    exact h.same hborn hg hr hx
  | opened r =>
    have hopened : ({ s with service := { s.service with link := s.service.link.opened r } } :
      Bridge).Awaited := h.same (Nat.le_refl _) rfl rfl rfl
    exact awaited_setReplay hopened r (by simp [Replay.awaited])
  | resumeRegistration g =>
    change (s.resumeRegistration g).Awaited
    unfold resumeRegistration
    split
    · exact h
    · split
      · exact (awaited_registered h g).same (Nat.le_refl _) rfl rfl rfl
      · exact awaited_registered h g
    · split
      · exact (awaited_registered h g).same (Nat.le_refl _) rfl rfl rfl
      · exact awaited_registered h g
  | resumeReplay r =>
    change (s.resumeReplay host r).Awaited
    have hr := resumes host s r
    generalize s.resumeReplay host r = t at hr ⊢
    cases hr with
    | idle => exact h
    | dialed => exact awaited_replayNext (s := s.connected) (h.same (Nat.le_refl _) rfl rfl rfl) r _
    | next todo => exact awaited_replayNext h r todo
    | throws => exact awaited_setReplay h r (by simp [Replay.awaited])
    | returned =>
      have hwoken : ({ s with calls := s.calls.emitReconnect } : Bridge).Awaited :=
        h.same (Nat.le_refl _) rfl rfl rfl
      exact awaited_setReplay hwoken r (by simp [Replay.awaited])
    | caught =>
      have hcaught : (s.caught host).Awaited := h.same (Nat.le_refl _) rfl rfl rfl
      exact awaited_setReplay hcaught r (by simp [Replay.awaited])
  | resumeClose x =>
    change (s.resumeClose x).Awaited
    unfold resumeClose
    split
    · exact h
    · exact awaited_closeTransport h x
    · have hsilent : s.removeAllListeners.Awaited := h.same (Nat.le_refl _) rfl rfl rfl
      exact awaited_setClosing hsilent x (by simp [Closing.awaited])
  | _ => exact h.same hborn rfl rfl rfl

theorem awaited_reach {ok : Guard Bridge Event} (h : (machine host).Reach ok s) : s.Awaited := by
  refine h.invariant ?_ ?_
  · rintro s rfl
    exact ⟨by simp [initial, Registration.awaited], by simp [initial, Replay.awaited],
      by simp [initial, Closing.awaited]⟩
  · intro s e t _ hs hstep _
    obtain ⟨he, rfl⟩ := Machine.ofEnabled_step.mp hstep
    exact awaited_apply hs e he

/-! ### The bridge left alone with the clock -/

/-- Time passes, and the timers and continuations of the call `k` run. -/
def alone (k : ℕ) : Guard Bridge Event := fun s e _ =>
  match e with
  | .tick _ => True
  | .callTimer a => (s.calls.attempts a).call = k
  | .waitTimer x => x = k
  | .resumeCall x => x = k
  | _ => False

theorem idle_same (hreceiver : t.receiver = s.receiver) (hreplays : t.replays = s.replays)
    (hnext : t.nextReplay = s.nextReplay) (h : s.idle = true) : t.idle = true := by
  unfold idle quiet at h ⊢
  rw [hreceiver, hreplays, hnext]
  exact h

/-- A bridge that differs from `s` in its calls and in what it has written. -/
structure Beside (s t : Bridge) : Prop where
  receiver : t.receiver = s.receiver
  registrations : t.registrations = s.registrations
  replays : t.replays = s.replays
  nextReplay : t.nextReplay = s.nextReplay
  closings : t.closings = s.closings

theorem Beside.refl (s : Bridge) : s.Beside s := ⟨rfl, rfl, rfl, rfl, rfl⟩

variable (host) in
/-- What a call does by itself, it does on the bridge. -/
theorem alone_reach (hidle : s.idle = true) {k : ℕ} {d : Calls}
    (h : ((Calls.machine host.mp).startingAt s.calls).Reach (Calls.own k) d) :
    ∃ t, ((machine host).startingAt s).Reach (alone k) t ∧ t.calls = d ∧ s.Beside t := by
  refine h.invariant (P := fun d => ∃ t, ((machine host).startingAt s).Reach (alone k) t ∧
    t.calls = d ∧ s.Beside t) ?_ ?_
  · rintro d rfl
    exact ⟨s, .init rfl, rfl, .refl s⟩
  · rintro _ e d' _ ⟨t, hreach, rfl, hbeside⟩ hstep hown
    obtain ⟨he, rfl⟩ := Machine.ofEnabled_step.mp hstep
    have hrests : t.idle = true :=
      idle_same hbeside.receiver hbeside.replays hbeside.nextReplay hidle
    have hquiet : t.quiet = true := by
      have hboth : t.quiet = true ∧ _ := of_decide_eq_true hrests
      exact hboth.1
    have hbeside' : ∀ u : Bridge, t.Beside u → s.Beside u := fun u hu =>
      ⟨hu.receiver.trans hbeside.receiver, hu.registrations.trans hbeside.registrations,
        hu.replays.trans hbeside.replays, hu.nextReplay.trans hbeside.nextReplay,
        hu.closings.trans hbeside.closings⟩
    cases e with
    | tick ms =>
      exact ⟨_, hreach.take (.tick ms) rfl trivial, rfl, hbeside' _ ⟨rfl, rfl, rfl, rfl, rfl⟩⟩
    | expire a =>
      have ha : t.enabled (.callTimer a) = true := by
        unfold enabled
        rw [hrests]
        exact he
      exact ⟨_, hreach.take (.callTimer a) ha hown, rfl, hbeside' _ ⟨rfl, rfl, rfl, rfl, rfl⟩⟩
    | giveUp x =>
      have hx : t.enabled (.waitTimer x) = true := by
        unfold enabled
        rw [hrests]
        exact he
      exact ⟨_, hreach.take (.waitTimer x) hx hown, rfl, hbeside' _ ⟨rfl, rfl, rfl, rfl, rfl⟩⟩
    | resume x =>
      have hx : t.enabled (.resumeCall x) = true := by
        unfold enabled
        rw [hquiet]
        exact he
      exact ⟨_, hreach.take (.resumeCall x) hx hown, rfl, hbeside' _ ⟨rfl, rfl, rfl, rfl, rfl⟩⟩
    | _ => exact hown.elim

/-- By itself, with the timers of the call `k` alone, the bridge comes to where `P` holds: by the
deadline of `k`, or in the next millisecond. -/
def ByItself (host : Host) (s : Bridge) (k : ℕ) (P : Bridge → Prop) : Prop :=
  ∃ t, ((machine host).startingAt s).Reach (alone k) t ∧
    t.calls.now ≤ max (s.calls.calls k).deadline (s.calls.now + 1) ∧ P t

theorem ByItself.mono {k : ℕ} {P Q : Bridge → Prop} (h : ByItself host s k P) (hpq : ∀ t, P t → Q t) :
    ByItself host s k Q := by
  obtain ⟨t, hreach, hnow, hp⟩ := h
  exact ⟨t, hreach, hnow, hpq t hp⟩

theorem running_calls {ok : Guard Bridge Event} (h : (machine host).Reach ok s) : s.calls.Running :=
  Calls.running_reach (calls_reach (G := fun _ _ => True) ⟨fun _ => trivial, fun _ _ _ => trivial⟩
    (fun _ _ _ _ => trivial) h)

theorem settles_alone {ok : Guard Bridge Event} (h : (machine host).Reach ok s)
    (hidle : s.idle = true) {k : ℕ} (hk : k < s.calls.nextCall) :
    ByItself host s k fun t => s.Beside t ∧ (t.outcome k).isSome = true := by
  obtain ⟨d, hreach, hnow, r, hdone⟩ := (running_calls h).ends hk host.mp
  obtain ⟨t, ht, rfl, hbeside⟩ := alone_reach host hidle hreach
  exact ⟨t, ht, hnow, hbeside, by rw [outcome_eq_some.mpr hdone]; rfl⟩

/-- What is under way goes on by itself: a call to its outcome, and to their next step a `provide` or
`onNotify`, the replay after a reconnect, and a `close` unless it awaits the end of a connection. -/
structure GoesOn (host : Host) (s : Bridge) : Prop where
  call : ∀ k < s.calls.nextCall, ByItself host s k fun t => (t.outcome k).isSome = true
  registration : ∀ g, s.registrations g ≠ .idle →
    ∃ k, ByItself host s k fun t => t.enabled (.resumeRegistration g) = true
  replay : ∀ r, s.replays r ≠ .idle →
    ∃ k, ByItself host s k fun t => t.enabled (.resumeReplay r) = true
  closing : ∀ x, s.closings x ≠ .idle → (∀ c, s.closings x ≠ .ending (some c)) →
    ∃ k, ByItself host s k fun t => t.enabled (.resumeClose x) = true

theorem Beside.quiet (h : s.Beside t) (hquiet : s.quiet = true) : t.quiet = true := by
  unfold Bridge.quiet at hquiet ⊢
  rw [h.receiver]
  exact hquiet

/-- What can be resumed at once. -/
theorem byItself_now (k : ℕ) {P : Bridge → Prop} (h : P s) : ByItself host s k P := by
  refine ⟨s, .init rfl, ?_, h⟩
  omega

theorem enabled_resumeRegistration (hquiet : s.quiet = true) {g : ℕ} (h : s.registrationReady g = true) :
    s.enabled (.resumeRegistration g) = true := by
  simp [enabled, hquiet, h]

theorem enabled_resumeReplay (hquiet : s.quiet = true) {r : ℕ} (h : s.replayReady r = true) :
    s.enabled (.resumeReplay r) = true := by
  simp [enabled, hquiet, h]

theorem enabled_resumeClose (hquiet : s.quiet = true) {x : ℕ} (h : s.closingReady x = true) :
    s.enabled (.resumeClose x) = true := by
  simp [enabled, hquiet, h]

theorem goesOn_reach {ok : Guard Bridge Event} (h : (machine host).Reach ok s) (hidle : s.idle = true) :
    s.GoesOn host := by
  have hquiet : s.quiet = true := by
    have hboth : s.quiet = true ∧ _ := of_decide_eq_true hidle
    exact hboth.1
  have hawaited := awaited_reach h
  constructor
  · intro k hk
    exact (settles_alone h hidle hk).mono fun t ht => ht.2
  · intro g hg
    have hready : ∀ k, (s.registrations g).awaited = some k →
        (∀ t : Bridge, s.Beside t → (t.outcome k).isSome = true → t.registrationReady g = true) →
        ∃ k, ByItself host s k fun t => t.enabled (.resumeRegistration g) = true := by
      intro k hk hresumes
      refine ⟨k, (settles_alone h hidle (hawaited.registrations g k hk)).mono ?_⟩
      rintro t ⟨hbeside, hsettled⟩
      exact enabled_resumeRegistration (hbeside.quiet hquiet) (hresumes t hbeside hsettled)
    cases hreg : s.registrations g with
    | idle => exact absurd hreg hg
    | provide method handler k =>
      refine hready k (by rw [hreg]; rfl) fun t hbeside hsettled => ?_
      simpa [registrationReady, hbeside.registrations, hreg] using hsettled
    | onNotify method handler k =>
      refine hready k (by rw [hreg]; rfl) fun t hbeside hsettled => ?_
      simpa [registrationReady, hbeside.registrations, hreg] using hsettled
  · intro r hr
    cases hreplay : s.replays r with
    | idle => exact absurd hreplay hr
    | dialed | returned | threw =>
      exact ⟨0, byItself_now 0 (enabled_resumeReplay hquiet (by simp [replayReady, hreplay]))⟩
    | registering todo k =>
      refine ⟨k, (settles_alone h hidle (hawaited.replays r k (by rw [hreplay]; rfl))).mono ?_⟩
      rintro t ⟨hbeside, hsettled⟩
      refine enabled_resumeReplay (hbeside.quiet hquiet) ?_
      simpa [replayReady, hbeside.replays, hreplay] using hsettled
  · intro x hx hconn
    cases hclosing : s.closings x with
    | idle => exact absurd hclosing hx
    | resetting k =>
      refine ⟨k, (settles_alone h hidle (hawaited.closings x k (by rw [hclosing]; rfl))).mono ?_⟩
      rintro t ⟨hbeside, hsettled⟩
      refine enabled_resumeClose (hbeside.quiet hquiet) ?_
      simpa [closingReady, hbeside.closings, hclosing] using hsettled
    | ending conn =>
      cases conn with
      | some c => exact absurd hclosing (hconn c)
      | none => exact ⟨0, byItself_now 0 (enabled_resumeClose hquiet (by simp [closingReady, hclosing]))⟩

/-- A `provide` whose registration nobody answers, and a `close` in the meantime. -/
def unanswered : List Event := [.provide "m" 1, .tick 100, .close]

theorem unanswered_goesOn :
    GoesOn referenceHost ((machine referenceHost).after always initial unanswered) ∧
      ((machine referenceHost).after always initial unanswered).registrations 0 = .provide "m" 1 0 ∧
      ((machine referenceHost).after always initial unanswered).closings 0 = .resetting 1 := by
  have hstart : (machine referenceHost).Reach always initial := .init rfl
  exact ⟨goesOn_reach (hstart.after unanswered) (by decide), by decide, by decide⟩

end Bridge

end UnoQ.Client
