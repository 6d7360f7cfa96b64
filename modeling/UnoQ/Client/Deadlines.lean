import UnoQ.Client.Record

/-!
# Deadlines

The budget of an invocation is looked at before it waits for the link to come back, and the wait has a
timer of its own. Neither is looked at when the wait is won, and an attempt with no budget left is made
with a timeout of zero: what is written then is written late.
-/

namespace UnoQ.Client
open Codec Transition

def Happening.starts (k : ℕ) : Happening → Bool
  | .started x _ => x = k
  | _ => false

/-- A REQUEST handed to the transport, with the time of that. It is a `retry` if its invocation has made
an attempt before. -/
structure Writing where
  call : ℕ
  attempt : ℕ
  id : ℕ
  time : ℤ
  retry : Bool
  deriving DecidableEq

namespace Calls

/-- The writing that an entry of the record stands for when it is made. -/
def writing (c : Calls) : Happening → Option Writing
  | .wrote k a id => some ⟨k, a, id, c.now, c.log.any (·.starts k)⟩
  | _ => none

/-- What a step that leads to `d` writes. -/
def writings (c d : Calls) : List Writing := (d.log.drop c.log.length).filterMap c.writing

theorem mem_writings {c d : Calls} {more : List Happening} (h : d.log = c.log ++ more) {w : Writing} :
    w ∈ c.writings d ↔ .wrote w.call w.attempt w.id ∈ more ∧ w.time = c.now ∧
      w.retry = c.log.any (·.starts w.call) := by
  unfold writings
  rw [h, List.drop_left, List.mem_filterMap]
  constructor
  · rintro ⟨ev, hev, hw⟩
    cases ev with
    | wrote k a id =>
      cases hw
      exact ⟨hev, rfl, rfl⟩
    | _ => contradiction
  · rintro ⟨hev, htime, hretry⟩
    refine ⟨_, hev, ?_⟩
    simp only [writing, ← htime, ← hretry]

/-! ### What a step leaves of the deadlines -/

/-- A step that writes for new invocations only, and makes an attempt for each of them. -/
structure Opens (c d : Calls) : Prop where
  born : c.nextCall ≤ d.nextCall
  deadline : ∀ k < c.nextCall, (d.calls k).deadline = (c.calls k).deadline
  log : ∃ more, d.log = c.log ++ more ∧ ∀ k a id, .wrote k a id ∈ more → c.nextCall ≤ k
  started : ∀ k, c.nextCall ≤ k → k < d.nextCall → d.log.any (·.starts k) = true

theorem Opens.quiet {c d : Calls} (hnext : d.nextCall = c.nextCall)
    (hdeadline : ∀ k, (d.calls k).deadline = (c.calls k).deadline) (hlog : d.log = c.log) :
    c.Opens d where
  born := Nat.le_of_eq hnext.symm
  deadline k _ := hdeadline k
  log := ⟨[], by simp [hlog], by simp⟩
  started k hk hlt := by omega

theorem Opens.refl (c : Calls) : c.Opens c := .quiet rfl (fun _ => rfl) rfl

theorem any_starts {c d : Calls} {more : List Happening} (h : d.log = c.log ++ more) {k : ℕ}
    (hk : c.log.any (·.starts k) = true) : d.log.any (·.starts k) = true := by
  rw [h, List.any_append, hk, Bool.true_or]

theorem Opens.trans {c d e : Calls} (h : c.Opens d) (h' : d.Opens e) : c.Opens e := by
  obtain ⟨hborn, hdeadline, ⟨more, hlog, hmore⟩, hstarted⟩ := h
  obtain ⟨hborn', hdeadline', ⟨more', hlog', hmore'⟩, hstarted'⟩ := h'
  constructor
  · exact Nat.le_trans hborn hborn'
  · intro k hk
    rw [hdeadline' k (by omega), hdeadline k hk]
  · refine ⟨more ++ more', by rw [hlog', hlog, List.append_assoc], fun k a id hev => ?_⟩
    rcases List.mem_append.mp hev with hev | hev
    · exact hmore k a id hev
    · have hk := hmore' k a id hev
      omega
  · intro k hk hlt
    by_cases hnew : k < d.nextCall
    · exact any_starts hlog' (hstarted k hk hnew)
    · exact hstarted' k (by omega) hlt

theorem Opens.of_mute {c d : Calls} (h : c.Mute d) (hnext : d.nextCall = c.nextCall)
    (hdeadline : ∀ k, (d.calls k).deadline = (c.calls k).deadline) : c.Opens d := by
  obtain ⟨-, more, hlog, hmore⟩ := h
  constructor
  · omega
  · exact fun k _ => hdeadline k
  · exact ⟨more, hlog, fun k a id hev => absurd rfl (hmore _ hev k a id)⟩
  · intro k hk hlt
    omega

theorem setPc_deadline (c : Calls) (k : ℕ) (pc : Pc) (x : ℕ) :
    ((c.setPc k pc).calls x).deadline = (c.calls x).deadline := by
  rw [setPc_calls]
  split
  next h => rw [h]
  next => rfl

theorem opens_setPc (c : Calls) (k : ℕ) (pc : Pc) : c.Opens (c.setPc k pc) :=
  .of_mute (mute_setPc c k pc) rfl (setPc_deadline c k pc)

theorem opens_respond (c : Calls) (id : ℕ) (r : Settlement) : c.Opens (c.respond id r) := by
  have hsame : (c.respond id r).nextCall = c.nextCall ∧ (c.respond id r).calls = c.calls := by
    unfold respond
    split <;> exact ⟨rfl, rfl⟩
  exact .of_mute (mute_respond c id r) hsame.1 fun k => by rw [hsame.2]

theorem opens_expire (c : Calls) (a : ℕ) : c.Opens (c.expire a) := by
  have hsame : (c.expire a).nextCall = c.nextCall ∧ (c.expire a).calls = c.calls := by
    unfold expire
    split <;> exact ⟨rfl, rfl⟩
  exact .of_mute (mute_expire c a) hsame.1 fun k => by rw [hsame.2]

theorem rejectAll_same (l : List (ℕ × ℕ)) : ∀ c : Calls,
    (rejectAll l c).nextCall = c.nextCall ∧ (rejectAll l c).calls = c.calls := by
  induction l with
  | nil => exact fun _ => ⟨rfl, rfl⟩
  | cons p rest ih => exact fun c => ih _

theorem opens_onTransportClose (c : Calls) : c.Opens c.onTransportClose := by
  have hsame := rejectAll_same c.pending.entries { c with connected := false }
  have hcalls : c.onTransportClose.calls = c.calls := hsame.2
  exact .of_mute (mute_onTransportClose c) hsame.1 fun k => by rw [hcalls]

theorem opens_emitReconnect (c : Calls) : c.Opens c.emitReconnect := by
  refine .of_mute (mute_emitReconnect c) rfl fun k => ?_
  change (wakeOne (c.calls k)).deadline = _
  rcases wakeOne_eq (c.calls k) with h | ⟨due, -, h⟩ <;> rw [h]

theorem opens_removeAllListeners (c : Calls) : c.Opens c.removeAllListeners := by
  refine .of_mute (mute_removeAllListeners c) rfl fun k => ?_
  change (unlistenOne (c.calls k)).deadline = _
  rcases unlistenOne_eq (c.calls k) with h | ⟨due, l, -, h⟩ <;> rw [h]

theorem attempt_opens (mp : Msgpack) (c : Calls) (k : ℕ) :
    (c.attempt mp k).nextCall = c.nextCall ∧
      (∀ x, ((c.attempt mp k).calls x).deadline = (c.calls x).deadline) ∧
      ∃ more, (c.attempt mp k).log = c.log ++ more ∧ .started k c.nextAttempt ∈ more ∧
        ∀ x a id, .wrote x a id ∈ more ↔ x = k ∧ a = c.nextAttempt ∧ id = nextMsgId c.msgid ∧
          (c.outgoing mp k).isSome = true := by
  unfold attempt outgoing
  dsimp only
  cases hconn : c.connected with
  | false => exact ⟨rfl, setPc_deadline c k _, _, rfl, by simp, by simp⟩
  | true =>
    rw [if_pos rfl]
    unfold encodeRequest
    cases henc : mp.encode (request (nextMsgId c.msgid) (c.calls k).method (c.calls k).params) with
    | none => exact ⟨rfl, setPc_deadline c k _, _, rfl, by simp, by simp⟩
    | some bs => exact ⟨rfl, setPc_deadline c k _, _, rfl, by simp, by simp⟩

theorem opens_callWithOptions (mp : Msgpack) (c : Calls) (method : String) (params : List JsValue)
    (opts : CallOptions) : c.Opens (c.callWithOptions mp method params opts) := by
  obtain ⟨hnext, hdeadline, more, hlog, hstart, hmore⟩ :=
    attempt_opens mp (c.invoke method params opts) c.nextCall
  have hborn : (c.callWithOptions mp method params opts).nextCall = c.nextCall + 1 := hnext
  constructor
  · omega
  · intro k hk
    have hold : (c.invoke method params opts).calls k = c.calls k :=
      Function.update_of_ne (Nat.ne_of_lt hk) _ _
    rw [← hold]
    exact hdeadline k
  · refine ⟨more, hlog, fun k a id hev => ?_⟩
    have hk := ((hmore k a id).mp hev).1
    omega
  · intro k hk hlt
    obtain rfl : k = c.nextCall := by omega
    have hmem : .started c.nextCall (c.invoke method params opts).nextAttempt ∈
        (c.callWithOptions mp method params opts).log := hlog ▸ List.mem_append_right _ hstart
    exact List.any_eq_true.mpr ⟨_, hmem, decide_eq_true rfl⟩

end Calls

namespace Bridge

theorem opens_calling {host : Host} {s t : Bridge} (h : Calling host s t) : s.calls.Opens t.calls := by
  rcases h.2 with ⟨hcalls, -⟩ | ⟨method, params, opts, hcalls, -⟩
  · rw [hcalls]
    exact .refl _
  · rw [hcalls]
    exact Calls.opens_callWithOptions ..

theorem opens_replayNext (host : Host) (s : Bridge) (r : ℕ) (todo : List String) :
    s.calls.Opens (s.replayNext host r todo).calls := by
  rcases replayNext_calls host s r todo with h | ⟨m, h⟩
  · rw [h]
    exact .refl _
  · rw [h]
    exact Calls.opens_callWithOptions ..

theorem opens_dispatch (host : Host) (s : Bridge) (thrower : Option ℕ) :
    s.calls.Opens (s.dispatch host thrower).calls := by
  rcases dispatch_cases host s thrower with ⟨h, -⟩ | ⟨msg, rest, -, h, -⟩
  · rw [h]
    exact .refl _
  · rw [h]
    rcases handleMessage_cases host s msg thrower with ⟨-, hc | ⟨id, r, hc⟩⟩ | ⟨hc, -⟩
    · rw [hc]
      exact .refl _
    · rw [hc]
      exact Calls.opens_respond ..
    · rw [hc]
      exact .refl _

theorem opens_resumeReplay (host : Host) (s : Bridge) (r : ℕ) :
    s.calls.Opens (s.resumeReplay host r).calls := by
  have hup : s.calls.Opens s.connected.calls := .quiet rfl (fun _ => rfl) rfl
  have hr := resumes host s r
  generalize s.resumeReplay host r = t at hr ⊢
  cases hr with
  | dialed => exact hup.trans (opens_replayNext ..)
  | next => exact opens_replayNext ..
  | returned => exact Calls.opens_emitReconnect s.calls
  | _ => exact .refl _

/-- Only an invocation that goes on after its wait writes for an older one. -/
theorem opens_apply (host : Host) (s : Bridge) (e : Event)
    (hresume : ∀ k, e = .resumeCall k → s.calls.retries k = false) :
    s.calls.Opens (s.apply host e).calls := by
  cases e with
  | tick ms => exact .quiet rfl (fun _ => rfl) rfl
  | callWithOptions method params opts => exact Calls.opens_callWithOptions ..
  | notify method params => exact .refl _
  | provide method handler => exact opens_calling (calling_provide host s method handler)
  | onNotify method handler => exact opens_calling (calling_onNotify host s method handler)
  | unsubscribe method handler => exact opens_calling (calling_unsubscribe host s method handler)
  | resumeRegistration g => exact opens_calling (calling_resumeRegistration host s g)
  | close =>
    change s.calls.Opens (s.close host).calls
    rcases close_parts host s with ⟨-, h, -⟩ | ⟨-, h, -⟩
    · rw [h]
      exact Calls.opens_callWithOptions ..
    · rw [h]
      exact .refl _
  | dispatch thrower => exact opens_dispatch host s thrower
  | closed c => exact Calls.opens_onTransportClose s.calls
  | callTimer a => exact Calls.opens_expire s.calls a
  | waitTimer k => exact Calls.opens_setPc s.calls k _
  | resumeCall k =>
    change s.calls.Opens (s.calls.resume host.mp k)
    rcases Calls.resume_plain (hresume k rfl) host.mp with h | ⟨pc, h⟩
    · rw [h]
      exact .refl _
    · rw [h]
      exact Calls.opens_setPc ..
  | resumeReplay r => exact opens_resumeReplay host s r
  | resumeClose x =>
    change s.calls.Opens (s.resumeClose x).calls
    rcases resumeClose_calls s x with h | h
    · rw [h]
      exact .refl _
    · rw [h]
      exact Calls.opens_removeAllListeners s.calls
  | _ => exact .refl _

/-! ### What is written when -/

/-- A bridge beside the REQUESTs it has handed to its transport. -/
structure Timed where
  bridge : Bridge
  writings : List Writing

namespace Timed

def initial : Timed := ⟨.initial, []⟩

def apply (host : Host) (u : Timed) (e : Event) : Timed :=
  ⟨u.bridge.apply host e, u.writings ++ u.bridge.calls.writings (u.bridge.apply host e).calls⟩

def machine (host : Host) : Machine Timed Event :=
  .ofEnabled (· = initial) (fun u e => u.bridge.enabled e = true) (apply host)

/-- Every retry was written before the deadline of its invocation. -/
def OnTime (u : Timed) : Prop :=
  ∀ w ∈ u.writings, w.retry = true → w.time < (u.bridge.calls.calls w.call).deadline

/-- An invocation whose wait was won goes on before its deadline, unless it then writes nothing. -/
def Prompt (host : Host) (u : Timed) : Event → Prop
  | .resumeCall k => u.bridge.calls.retries k = true →
      (u.bridge.calls.outgoing host.mp k).isSome = true →
        u.bridge.calls.now < (u.bridge.calls.calls k).deadline
  | _ => True

instance (host : Host) (u : Timed) : ∀ e, Decidable (Prompt host u e)
  | .resumeCall k => decidable_of_iff (u.bridge.calls.retries k = false ∨
      (u.bridge.calls.outgoing host.mp k).isSome = false ∨
        u.bridge.calls.now < (u.bridge.calls.calls k).deadline) <| by
      show _ ↔ (_ → _ → _)
      rw [← Bool.not_eq_true, ← Bool.not_eq_true, ← imp_iff_not_or, ← imp_iff_not_or]
  | .tick .. | .callWithOptions .. | .notify .. | .provide .. | .onNotify .. | .unsubscribe ..
  | .listen .. | .close | .dispatch .. | .settle .. | .data .. | .broken .. | .closed .. | .opened ..
  | .refused .. | .callTimer .. | .waitTimer .. | .reconnectTimer | .resumeRegistration ..
  | .resumeReplay .. | .resumeClose .. => isTrue trivial

def promptly (host : Host) : Guard Timed Event := fun u e _ => Prompt host u e

instance (host : Host) (u : Timed) (e : Event) (v : Timed) : Decidable (promptly host u e v) :=
  inferInstanceAs (Decidable (Prompt host u e))

variable {host : Host} {u : Timed}

/-- What was written belongs to an invocation that is there, and each of these has made an attempt. -/
structure Inv (u : Timed) : Prop where
  calls : u.bridge.calls.Inv
  born : ∀ w ∈ u.writings, w.call < u.bridge.calls.nextCall
  started : ∀ k < u.bridge.calls.nextCall, u.bridge.calls.log.any (·.starts k) = true

theorem starts_fresh {c : Calls} (hi : c.Inv) {k : ℕ} (hk : c.nextCall ≤ k) :
    c.log.any (·.starts k) = false := by
  rw [List.any_eq_false]
  intro ev hev hs
  cases ev with
  | started x a =>
    have hx : x = k := of_decide_eq_true hs
    obtain ⟨ha, hcall⟩ := (hi.started x a).mp hev
    have hlt := hi.caller a ha
    omega
  | _ => contradiction

theorem retries_born {c : Calls} (hi : c.Inv) {k : ℕ} (hr : c.retries k = true) : k < c.nextCall := by
  by_contra hge
  have hu := hi.unused k (by omega)
  simp [Calls.retries, hu, Call.unused] at hr

/-- What one step does to the deadlines, and which writings of it are retries. -/
structure Writes (host : Host) (u : Timed) (e : Event) : Prop where
  born : u.bridge.calls.nextCall ≤ (u.bridge.apply host e).calls.nextCall
  deadline : ∀ k < u.bridge.calls.nextCall,
    ((u.bridge.apply host e).calls.calls k).deadline = (u.bridge.calls.calls k).deadline
  started : ∀ k < (u.bridge.apply host e).calls.nextCall,
    (u.bridge.apply host e).calls.log.any (·.starts k) = true
  new : ∀ w ∈ u.bridge.calls.writings (u.bridge.apply host e).calls,
    .wrote w.call w.attempt w.id ∈ (u.bridge.apply host e).calls.log ∧ w.time = u.bridge.calls.now
  retries : ∀ k, (∃ w ∈ u.bridge.calls.writings (u.bridge.apply host e).calls,
    w.retry = true ∧ w.call = k) ↔ e = .resumeCall k ∧ u.bridge.calls.retries k = true ∧
      (u.bridge.calls.outgoing host.mp k).isSome = true

theorem writes_resume (hi : u.Inv) {k : ℕ} (hr : u.bridge.calls.retries k = true) :
    Writes host u (.resumeCall k) := by
  have hk := retries_born hi.calls hr
  have hresume : (u.bridge.apply host (.resumeCall k)).calls = u.bridge.calls.attempt host.mp k :=
    Calls.resume_retries hr host.mp
  obtain ⟨hnext, hdeadline, more, hlog, -, hmore⟩ := Calls.attempt_opens host.mp u.bridge.calls k
  constructor <;> rw [hresume]
  · omega
  · exact fun x _ => hdeadline x
  · intro x hx
    exact Calls.any_starts hlog (hi.started x (by omega))
  · intro w hw
    obtain ⟨hev, htime, -⟩ := (Calls.mem_writings hlog).mp hw
    exact ⟨hlog ▸ List.mem_append_right _ hev, htime⟩
  · intro x
    constructor
    · rintro ⟨w, hw, -, rfl⟩
      obtain ⟨hev, -⟩ := (Calls.mem_writings hlog).mp hw
      obtain ⟨hcall, -, -, hout⟩ := (hmore _ _ _).mp hev
      rw [hcall]
      exact ⟨rfl, hr, hout⟩
    · rintro ⟨he, -, hout⟩
      cases he
      refine ⟨⟨k, u.bridge.calls.nextAttempt, nextMsgId u.bridge.calls.msgid, u.bridge.calls.now, true⟩,
        (Calls.mem_writings hlog).mpr ⟨?_, rfl, (hi.started k hk).symm⟩, rfl, rfl⟩
      exact (hmore _ _ _).mpr ⟨rfl, rfl, rfl, hout⟩

theorem writes_apply (host : Host) (hi : u.Inv) (e : Event) : Writes host u e := by
  by_cases hresume : ∃ k, e = .resumeCall k ∧ u.bridge.calls.retries k = true
  · obtain ⟨k, rfl, hr⟩ := hresume
    exact writes_resume hi hr
  · have hplain : ∀ k, e = .resumeCall k → u.bridge.calls.retries k = false := fun k he =>
      Bool.eq_false_iff.mpr fun hr => hresume ⟨k, he, hr⟩
    obtain ⟨hborn, hdeadline, ⟨more, hlog, hmore⟩, hstarted⟩ := opens_apply host u.bridge e hplain
    constructor
    · exact hborn
    · exact hdeadline
    · intro k hk
      by_cases hold : k < u.bridge.calls.nextCall
      · exact Calls.any_starts hlog (hi.started k hold)
      · exact hstarted k (by omega) hk
    · intro w hw
      obtain ⟨hev, htime, -⟩ := (Calls.mem_writings hlog).mp hw
      exact ⟨hlog ▸ List.mem_append_right _ hev, htime⟩
    · intro k
      constructor
      · rintro ⟨w, hw, hretry, rfl⟩
        obtain ⟨hev, -, hbefore⟩ := (Calls.mem_writings hlog).mp hw
        have hfresh := starts_fresh hi.calls (hmore _ _ _ hev)
        rw [hbefore, hfresh] at hretry
        contradiction
      · rintro ⟨he, hr, -⟩
        exact absurd ⟨k, he, hr⟩ hresume

theorem inv_apply (hi : u.Inv) (e : Event) (he : u.bridge.enabled e = true) : (u.apply host e).Inv := by
  have hw := writes_apply host hi e
  have hcalls : (u.bridge.apply host e).calls.Inv := by
    refine (calls_apply host he).invariant (fun c hc => ?_) fun c ev d _ hc hstep _ => ?_
    · have hc : c = u.bridge.calls := hc
      exact hc ▸ hi.calls
    · obtain ⟨hev, rfl⟩ := Machine.ofEnabled_step.mp hstep
      exact Calls.inv_apply hc host.mp ev hev
  constructor
  · exact hcalls
  · intro w hmem
    rcases List.mem_append.mp hmem with hold | hnew
    · have hlt := hi.born w hold
      exact Nat.lt_of_lt_of_le hlt hw.born
    · obtain ⟨ha, hcall⟩ := hcalls.wrote _ _ _ (hw.new w hnew).1
      exact hcall ▸ hcalls.caller _ ha
  · exact hw.started

/-- A step keeps the retries on time if and only if its own retry is prompt. -/
theorem onTime_apply (hi : u.Inv) (e : Event) :
    (u.apply host e).OnTime ↔ u.OnTime ∧ Prompt host u e := by
  have hw := writes_apply host hi e
  constructor
  · intro h
    constructor
    · intro w hmem hretry
      have hlt := h w (List.mem_append_left _ hmem) hretry
      have hsame := hw.deadline _ (hi.born w hmem)
      exact hsame ▸ hlt
    · cases e with
      | resumeCall k =>
        intro hr hout
        obtain ⟨w, hnew, hretry, rfl⟩ := (hw.retries k).mpr ⟨rfl, hr, hout⟩
        have hlt := h w (List.mem_append_right _ hnew) hretry
        have hsame := hw.deadline _ (retries_born hi.calls hr)
        rw [← (hw.new w hnew).2, ← hsame]
        exact hlt
      | _ => trivial
  · rintro ⟨hold, hprompt⟩ w hmem hretry
    rcases List.mem_append.mp hmem with hmem | hnew
    · have hsame := hw.deadline _ (hi.born w hmem)
      exact hsame ▸ hold w hmem hretry
    · obtain ⟨rfl, hr, hout⟩ := (hw.retries w.call).mp ⟨w, hnew, hretry, rfl⟩
      have hsame := hw.deadline _ (retries_born hi.calls hr)
      have hlt := hprompt hr hout
      rw [← (hw.new w hnew).2, ← hsame] at hlt
      exact hlt

theorem inv_reach {ok : Guard Timed Event} (h : (machine host).Reach ok u) : u.Inv := by
  refine h.invariant ?_ ?_
  · rintro u rfl
    exact ⟨Calls.inv_initial, by simp [initial], fun k hk => absurd hk (Nat.not_lt_zero k)⟩
  · intro u e v _ hi hs _
    obtain ⟨he, rfl⟩ := Machine.ofEnabled_step.mp hs
    exact inv_apply hi e he

/-- Every retry of a run was written before its deadline if and only if each was prompt. -/
theorem onTime_iff (host : Host) {u : Timed} (h : (machine host).Reach always u) :
    u.OnTime ↔ (machine host).Reach (promptly host) u := by
  constructor
  · intro hontime
    have hguarded : (machine host).Reach (promptly host) u ∨ ¬ u.OnTime := by
      refine h.guarded_or (B := fun u => ¬ u.OnTime) fun u e v hr hs hlate hv => ?_
      obtain ⟨-, rfl⟩ := Machine.ofEnabled_step.mp hs
      obtain ⟨hold, hprompt⟩ := (onTime_apply (inv_reach hr) e).mp hv
      rcases hlate with hlate | hlate
      · exact hlate hold
      · exact hlate hprompt
    exact hguarded.resolve_right (not_not_intro hontime)
  · intro hrun
    refine hrun.invariant ?_ ?_
    · rintro u rfl w hw
      contradiction
    · intro u e v hr hold hs hprompt
      obtain ⟨-, rfl⟩ := Machine.ofEnabled_step.mp hs
      exact (onTime_apply (inv_reach hr) e).mpr ⟨hold, hprompt⟩

/-- A drop while the first attempt is pending, and a link that is back `ms` milliseconds later. -/
def dropped (ms : ℕ) : List Event :=
  [.callWithOptions "open" [] ⟨some 300, some true⟩, .tick 10, .closed 0, .resumeCall 0, .tick 200,
    .reconnectTimer, .tick ms, .opened 0, .resumeReplay 0, .resumeReplay 0, .resumeCall 0]

/-- The link comes back in time: the retry goes out before its deadline. -/
theorem dropped_onTime : ((machine referenceHost).after always initial (dropped 50)).OnTime ∧
    ⟨0, 1, 2, 260, true⟩ ∈ ((machine referenceHost).after always initial (dropped 50)).writings := by
  have hstart : ∀ ok : Guard Timed Event, (machine referenceHost).Reach ok initial := fun _ => .init rfl
  have hsame : (machine referenceHost).after always initial (dropped 50) =
      (machine referenceHost).after (promptly referenceHost) initial (dropped 50) :=
    Machine.after_mono (fun _ _ _ _ => trivial) (by decide)
  refine ⟨(onTime_iff referenceHost ((hstart always).after (dropped 50))).mpr ?_, by decide⟩
  rw [hsame]
  exact (hstart (promptly referenceHost)).after (dropped 50)

/-- It comes back 10 ms after the deadline, before the timer of the wait has run: the retry is written,
and reaches the board. -/
theorem dropped_late : ∃ u, (machine referenceHost).Reach always u ∧ ¬ u.OnTime ∧
    ⟨1, request 2 "open" [], none⟩ ∈ u.bridge.service.link.sent := by
  have hstart : (machine referenceHost).Reach always initial := .init rfl
  refine ⟨_, hstart.after (dropped 100), fun h => ?_, ?_⟩
  · have hlate := h ⟨0, 1, 2, 310, true⟩ (by decide) rfl
    exact absurd hlate (by decide)
  · exact List.mem_of_getElem? (i := 1) rfl

end Timed
end Bridge
end UnoQ.Client
