import UnoQ.Client.Launch

/-!
# The retry loop

The remaining steps of an invocation, and what therefore holds of every invocation in
every run, whatever is lost and however late the answers come.
-/

namespace UnoQ.Client
open Codec Transition History

namespace Calls

/-- A step that leaves the attempts and the `pending` map alone and records no more than a reconnect
or a close. -/
structure Steady (c d : Calls) (more : List Happening) : Prop where
  attempts : d.attempts = c.attempts
  nextAttempt : d.nextAttempt = c.nextAttempt
  pending : d.pending = c.pending
  log : d.log = c.log ++ more
  events : ∀ ev ∈ more, ev = .reconnect ∨ ev = .closed
  nextCall : c.nextCall ≤ d.nextCall
  unused : ∀ k, d.nextCall ≤ k → d.calls k = c.calls k
  idempotent : ∀ k, k < c.nextCall → (d.calls k).idempotent = (c.calls k).idempotent

theorem Steady.of {c d : Calls} {more : List Happening} (h : Steady c d more) (k a : ℕ) :
    d.Of k a ↔ c.Of k a := by
  unfold Of
  rw [h.attempts, h.nextAttempt]

theorem Steady.mem {c d : Calls} {more : List Happening} (h : Steady c d more) {ev : Happening}
    (hr : ev ≠ .reconnect) (hc : ev ≠ .closed) : ev ∈ d.log ↔ ev ∈ c.log := by
  rw [h.log, List.mem_append]
  constructor
  · rintro (hev | hev)
    · exact hev
    · rcases h.events ev hev with he | he
      · exact absurd he hr
      · exact absurd he hc
  · exact Or.inl

theorem Steady.count {c d : Calls} {more : List Happening} (h : Steady c d more)
    {P : Happening → Bool} (hr : P .reconnect = false) (hc : P .closed = false) :
    d.log.countP P = c.log.countP P := by
  have hzero : more.countP P = 0 := by
    rw [List.countP_eq_zero]
    intro ev hev hP
    rcases h.events ev hev with he | he
    · rw [he, hr] at hP
      contradiction
    · rw [he, hc] at hP
      contradiction
  rw [h.log, List.countP_append, hzero, Nat.add_zero]

theorem inv_steady {c d : Calls} (hi : c.Inv) {more : List Happening} (h : Steady c d more)
    (hok : ∀ k, d.CallOk k) : d.Inv := by
  have hof := h.of
  constructor
  · intro a ha
    rw [h.attempts]
    exact hi.unborn a (h.nextAttempt ▸ ha)
  · intro k hk
    rw [h.unused k hk]
    exact hi.unused k (Nat.le_trans h.nextCall hk)
  · intro a ha
    rw [h.attempts]
    exact Nat.lt_of_lt_of_le (hi.caller a (h.nextAttempt ▸ ha)) h.nextCall
  · intro k a
    rw [h.mem (by simp) (by simp), hof]
    exact hi.started k a
  · intro k a id hm
    rw [h.mem (by simp) (by simp)] at hm
    rw [hof]
    exact hi.wrote k a id hm
  · intro a ha hs
    rw [h.attempts] at hs ⊢
    obtain ⟨id, hid, hw⟩ := hi.written a (h.nextAttempt ▸ ha) hs
    exact ⟨id, hid, (h.mem (by simp) (by simp)).mpr hw⟩
  · intro k a via r hm
    rw [h.mem (by simp) (by simp)] at hm
    rw [hof, h.attempts]
    exact hi.settled k a via r hm
  · intro a r hs
    rw [h.attempts] at hs ⊢
    obtain ⟨via, hm, hv⟩ := hi.recorded a r hs
    exact ⟨via, (h.mem (by simp) (by simp)).mpr hm, hv⟩
  · intro a
    rw [h.count rfl rfl]
    exact hi.once a
  · intro k hk
    rw [h.count rfl rfl]
    by_cases hlt : k < c.nextCall
    · exact hi.frames k (by rw [← h.idempotent k hlt]; exact hk)
    · rw [count_writes hi (fun p hp => ?_)]
      · exact Nat.zero_le 1
      · have := hi.caller p hp.1
        have := hp.2
        omega
  · intro id a hget
    rw [h.pending] at hget
    rw [h.attempts, h.nextAttempt]
    exact hi.mapped id a hget
  · rw [h.log]
    refine causal_append more hi.causal (fun past ev rest hsplit => ?_)
    have hev : ev ∈ more := by
      rw [hsplit]
      simp
    rcases h.events ev hev with rfl | rfl <;> exact ⟨trivial, trivial⟩
  · exact hok

theorem inv_clock {c : Calls} (hi : c.Inv) (now : ℤ) (connected : Bool) :
    ({ c with now := now, connected := connected } : Calls).Inv := by
  have hst : Steady c { c with now := now, connected := connected } [] :=
    ⟨rfl, rfl, rfl, (List.append_nil _).symm, by simp, Nat.le_refl _, fun _ _ => rfl, fun _ _ => rfl⟩
  exact inv_steady hi hst (fun k => (hi.calls k).frame rfl (fun _ => Iff.rfl) hst.log)

theorem setPc_calls (c : Calls) (k x : ℕ) (pc : Pc) :
    (c.setPc k pc).calls x = if x = k then { c.calls k with pc := pc } else c.calls x :=
  Function.update_apply c.calls k _ x

theorem setPc_idempotent (c : Calls) (k x : ℕ) (pc : Pc) :
    ((c.setPc k pc).calls x).idempotent = (c.calls x).idempotent := by
  rw [setPc_calls]
  split
  next h => rw [h]
  next => rfl

theorem setPc_steady {c : Calls} {k : ℕ} (hk : k < c.nextCall) (pc : Pc) :
    Steady c (c.setPc k pc) [] where
  attempts := rfl
  nextAttempt := rfl
  pending := rfl
  log := (List.append_nil c.log).symm
  events := by simp
  nextCall := Nat.le_refl _
  unused := by
    intro x hx
    have hx' : c.nextCall ≤ x := hx
    rw [setPc_calls, if_neg (by omega)]
  idempotent x _ := setPc_idempotent c k x pc

theorem inv_setPc {c : Calls} (hi : c.Inv) {k : ℕ} (hk : k < c.nextCall) {pc : Pc}
    (hunused : pc ≠ .unused) (hawaiting : ∀ a, pc ≠ .awaiting a)
    (hwaiting : ∀ due l, pc = .waiting due l →
      (c.calls k).idempotent = true ∧ ∀ p, c.Of k p → Failed c.log k p)
    (hwoken : ∀ b, pc = .woken b →
      (c.calls k).idempotent = true ∧ (b = true → ∀ p, c.Of k p → Retired c.log k p))
    (hresult : ∀ v, pc = .done (.result v) →
      ∃ p id, .settled k p (some id) (.result v) ∈ c.log) : (c.setPc k pc).Inv := by
  have hst := setPc_steady hk pc
  refine inv_steady hi hst (fun j => ?_)
  by_cases hjk : j = k
  · subst hjk
    have hpc : ((c.setPc j pc).calls j).pc = pc := by
      rw [setPc_calls, if_pos rfl]
    have hold := hi.calls j
    constructor
    · intro h
      exact absurd (hpc.symm.trans h) hunused
    · intro a h
      exact absurd (hpc.symm.trans h) (hawaiting a)
    · intro due l h
      rw [setPc_idempotent]
      exact hwaiting due l (hpc.symm.trans h)
    · intro b h
      rw [setPc_idempotent]
      exact hwoken b (hpc.symm.trans h)
    · intro v h
      exact hresult v (hpc.symm.trans h)
    · exact hold.retried
    · intro hid
      rw [setPc_idempotent] at hid
      exact hold.single hid
  · refine (hi.calls j).frame ?_ (fun a => Iff.rfl) hst.log
    rw [setPc_calls, if_neg hjk]

theorem inv_invoke {c : Calls} (hi : c.Inv) (method : String) (params : List JsValue)
    (opts : CallOptions) : (c.invoke method params opts).Inv := by
  have hcalls : ∀ x, x ≠ c.nextCall → (c.invoke method params opts).calls x = c.calls x := by
    intro x hx
    exact Function.update_of_ne hx _ _
  have hst : Steady c (c.invoke method params opts) [] := by
    constructor
    · rfl
    · rfl
    · rfl
    · exact (List.append_nil c.log).symm
    · simp
    · exact Nat.le_succ _
    · intro x hx
      have hx' : c.nextCall + 1 ≤ x := hx
      exact hcalls x (by omega)
    · intro x hx
      rw [hcalls x (by omega)]
  refine inv_steady hi hst (fun k => ?_)
  by_cases hk : k = c.nextCall
  · have hnone : ∀ p, ¬ (c.invoke method params opts).Of k p := by
      intro p hp
      rw [hst.of] at hp
      have := hi.caller p hp.1
      have := hp.2
      omega
    have hpc : ((c.invoke method params opts).calls k).pc = .unused := by
      rw [hk]
      simp [invoke]
    constructor
    · intro _ p hp
      exact hnone p hp
    · intro a h
      rw [hpc] at h
      contradiction
    · intro due l h
      rw [hpc] at h
      contradiction
    · intro b h
      rw [hpc] at h
      contradiction
    · intro v h
      rw [hpc] at h
      contradiction
    · intro p q hp
      exact absurd hp (hnone p)
    · intro _ p q hp
      exact absurd hp (hnone p)
  · exact (hi.calls k).frame (hcalls k hk) (fun a => hst.of k a) hst.log

theorem inv_callWithOptions {c : Calls} (hi : c.Inv) (mp : Msgpack) (method : String)
    (params : List JsValue) (opts : CallOptions) :
    (c.callWithOptions mp method params opts).Inv := by
  have hpc : ((c.invoke method params opts).calls c.nextCall).pc = .unused := by
    simp [invoke]
  exact inv_attempt (inv_invoke hi method params opts) mp (Nat.lt_succ_self _) (Or.inl hpc)

theorem inv_respond {c : Calls} (hi : c.Inv) (id : ℕ) (r : Settlement) : (c.respond id r).Inv := by
  unfold respond
  cases hget : c.pending.get id with
  | none => exact hi
  | some a =>
    obtain ⟨ha, hid, -⟩ := hi.mapped id a hget
    exact inv_retire hi ha hid (fun _ hm => (Option.some.inj hm).symm) (by simp)

theorem inv_expire {c : Calls} (hi : c.Inv) (a : ℕ) : (c.expire a).Inv := by
  unfold expire
  cases hid : (c.attempts a).id with
  | none => exact hi
  | some id =>
    have ha : a < c.nextAttempt := by
      by_contra hge
      rw [hi.unborn a (by omega)] at hid
      contradiction
    exact inv_retire hi ha hid (by simp) (fun _ => ⟨_, rfl⟩)

theorem inv_rejectAll (l : List (ℕ × ℕ)) : ∀ {c : Calls}, c.Inv →
    (∀ p ∈ l, p.2 < c.nextAttempt ∧ (c.attempts p.2).id = some p.1) → (rejectAll l c).Inv := by
  induction l with
  | nil => exact fun hi _ => hi
  | cons p rest ih =>
    intro c hi hl
    obtain ⟨ha, hid⟩ := hl p List.mem_cons_self
    refine ih (inv_retire hi ha hid (by simp) (fun _ => ⟨_, rfl⟩)) (fun q hq => ?_)
    obtain ⟨hq1, hq2⟩ := hl q (List.mem_cons_of_mem _ hq)
    rw [retire_id]
    exact ⟨hq1, hq2⟩

theorem inv_onTransportClose {c : Calls} (hi : c.Inv) : c.onTransportClose.Inv := by
  have hdown : ({ c with connected := false } : Calls).Inv := inv_clock hi c.now false
  have hall := inv_rejectAll c.pending.entries hdown (fun p hp => by
    obtain ⟨hlt, hid, -⟩ := hi.mapped p.1 p.2 ((InsertMap.get_eq_some_iff _).mpr hp)
    exact ⟨hlt, hid⟩)
  have hst : Steady (rejectAll c.pending.entries { c with connected := false }) c.onTransportClose
      [.closed] :=
    ⟨rfl, rfl, rfl, rfl, by simp, Nat.le_refl _, fun _ _ => rfl, fun _ _ => rfl⟩
  exact inv_steady hall hst (fun k => (hall.calls k).frame rfl (fun _ => Iff.rfl) rfl)

/-- The `catch` waits for a reconnect only when every attempt so far ended in a `ConnectionError`. -/
theorem inv_caught {c : Calls} (hi : c.Inv) {k : ℕ} (hk : k < c.nextCall) {err : BridgeError}
    (hall : err.isConnectionError = true → ∀ p, c.Of k p → Failed c.log k p) :
    (c.caught k err).Inv := by
  unfold caught
  dsimp only
  split
  · exact inv_setPc hi hk (by simp) (by simp) (by simp) (by simp) (by simp)
  next hretry =>
    rw [not_or, Bool.not_eq_false, Bool.not_eq_false] at hretry
    split
    · exact inv_setPc hi hk (by simp) (by simp) (by simp) (by simp) (by simp)
    · exact inv_setPc hi hk (by simp) (by simp) (fun _ _ _ => ⟨hretry.2, hall hretry.1⟩) (by simp)
        (by simp)

theorem inv_resume {c : Calls} (hi : c.Inv) (mp : Msgpack) {k : ℕ} (h : c.ready k = true) :
    (c.resume mp k).Inv := by
  have hk : k < c.nextCall := by
    by_contra hge
    have hu := hi.unused k (by omega)
    simp [ready, hu, Call.unused] at h
  unfold resume
  cases hpc : (c.calls k).pc with
  | unused => exact hi
  | waiting due l => exact hi
  | done r => exact hi
  | woken b =>
    cases b with
    | true => exact inv_attempt hi mp hk (Or.inr hpc)
    | false => exact inv_setPc hi hk (by simp) (by simp) (by simp) (by simp) (by simp)
  | awaiting a =>
    obtain ⟨hof, hlast⟩ := (hi.calls k).awaiting a hpc
    cases hs : (c.attempts a).settled with
    | none => simpa only [hs] using hi
    | some r =>
      obtain ⟨via, hm, hvia⟩ := hi.recorded a r hs
      rw [hof.2] at hm
      cases r with
      | result v =>
        simp only [hs]
        refine inv_setPc hi hk (by simp) (by simp) (by simp) (by simp) (fun w hw => ?_)
        cases hw
        cases via with
        | none =>
          obtain ⟨err, he⟩ := hvia rfl
          contradiction
        | some id => exact ⟨a, id, hm⟩
      | failure err =>
        simp only [hs]
        refine inv_caught hi hk (fun hce p hp => ?_)
        rcases Nat.lt_or_eq_of_le (hlast p hp) with hlt | rfl
        · exact ((hi.calls k).retried p a hp hof hlt).failed
        · cases err with
          | connection message => exact ⟨via, message, hm⟩
          | _ => contradiction

theorem inv_giveUp {c : Calls} (hi : c.Inv) {k : ℕ} (h : c.givesUp k = true) : (c.giveUp k).Inv := by
  have hk : k < c.nextCall := by
    by_contra hge
    have hu := hi.unused k (by omega)
    simp [givesUp, hu, Call.unused] at h
  unfold giveUp
  cases hpc : (c.calls k).pc with
  | waiting due l =>
    exact inv_setPc hi hk (by simp) (by simp) (by simp)
      (fun b hb => ⟨((hi.calls k).waiting due l hpc).1, fun hb' => by
        cases hb
        contradiction⟩) (by simp)
  | _ => simp [givesUp, hpc] at h

theorem wakeOne_eq (call : Call) :
    wakeOne call = call ∨ ∃ due, call.pc = .waiting due true ∧
      wakeOne call = { call with pc := .woken true } := by
  unfold wakeOne
  split
  next due h => exact Or.inr ⟨due, h, rfl⟩
  next => exact Or.inl rfl

/-- 'reconnect' is what turns failed attempts into retired ones. -/
theorem inv_emitReconnect {c : Calls} (hi : c.Inv) : c.emitReconnect.Inv := by
  have hidem : ∀ k, (c.emitReconnect.calls k).idempotent = (c.calls k).idempotent := by
    intro k
    change (wakeOne (c.calls k)).idempotent = _
    rcases wakeOne_eq (c.calls k) with h | ⟨due, -, h⟩ <;> rw [h]
  have hst : Steady c c.emitReconnect [.reconnect] := by
    constructor
    · rfl
    · rfl
    · rfl
    · rfl
    · simp
    · exact Nat.le_refl _
    · intro k hk
      change wakeOne (c.calls k) = c.calls k
      rw [hi.unused k hk]
      rfl
    · exact fun k _ => hidem k
  refine inv_steady hi hst (fun k => ?_)
  have hold := hi.calls k
  rcases wakeOne_eq (c.calls k) with h | ⟨due, hpc, h⟩
  · exact hold.frame h (fun a => hst.of k a) hst.log
  · have hcall : c.emitReconnect.calls k = { c.calls k with pc := .woken true } := h
    obtain ⟨hid, hall⟩ := hold.waiting due true hpc
    constructor
    · intro h'
      rw [hcall] at h'
      contradiction
    · intro a h'
      rw [hcall] at h'
      contradiction
    · intro due' l h'
      rw [hcall] at h'
      contradiction
    · intro b _
      rw [hidem]
      exact ⟨hid, fun _ p hp => (hall p ((hst.of k p).mp hp)).retired⟩
    · intro v h'
      rw [hcall] at h'
      contradiction
    · intro p q hp hq hlt
      exact (hold.retried p q ((hst.of k p).mp hp) ((hst.of k q).mp hq) hlt).append _
    · intro hid' p q hp hq
      rw [hidem] at hid'
      exact hold.single hid' p q ((hst.of k p).mp hp) ((hst.of k q).mp hq)

theorem unlistenOne_eq (call : Call) :
    unlistenOne call = call ∨ ∃ due l, call.pc = .waiting due l ∧
      unlistenOne call = { call with pc := .waiting due false } := by
  unfold unlistenOne
  split
  next due l h => exact Or.inr ⟨due, l, h, rfl⟩
  next => exact Or.inl rfl

theorem inv_removeAllListeners {c : Calls} (hi : c.Inv) : c.removeAllListeners.Inv := by
  have hidem : ∀ k, (c.removeAllListeners.calls k).idempotent = (c.calls k).idempotent := by
    intro k
    change (unlistenOne (c.calls k)).idempotent = _
    rcases unlistenOne_eq (c.calls k) with h | ⟨due, l, -, h⟩ <;> rw [h]
  have hst : Steady c c.removeAllListeners [] := by
    constructor
    · rfl
    · rfl
    · rfl
    · exact (List.append_nil c.log).symm
    · simp
    · exact Nat.le_refl _
    · intro k hk
      change unlistenOne (c.calls k) = c.calls k
      rw [hi.unused k hk]
      rfl
    · exact fun k _ => hidem k
  refine inv_steady hi hst (fun k => ?_)
  have hold := hi.calls k
  rcases unlistenOne_eq (c.calls k) with h | ⟨due, l, hpc, h⟩
  · exact hold.frame h (fun a => hst.of k a) hst.log
  · have hcall : c.removeAllListeners.calls k = { c.calls k with pc := .waiting due false } := h
    constructor
    · intro h'
      rw [hcall] at h'
      contradiction
    · intro a h'
      rw [hcall] at h'
      contradiction
    · intro due' l' _
      rw [hidem]
      exact hold.waiting due l hpc
    · intro b h'
      rw [hcall] at h'
      contradiction
    · intro v h'
      rw [hcall] at h'
      contradiction
    · exact hold.retried
    · intro hid'
      rw [hidem] at hid'
      exact hold.single hid'

/-! ### Every run -/

theorem inv_initial : initial.Inv := by
  have hof : ∀ k a, ¬ initial.Of k a := fun k a h => Nat.not_lt_zero a h.1
  constructor
  · exact fun _ _ => rfl
  · exact fun _ _ => rfl
  · exact fun a ha => absurd ha (Nat.not_lt_zero a)
  · intro k a
    constructor
    · intro h
      simp [initial] at h
    · intro h
      exact absurd h (hof k a)
  · intro k a id h
    simp [initial] at h
  · exact fun a ha => absurd ha (Nat.not_lt_zero a)
  · intro k a via r h
    simp [initial] at h
  · intro a r h
    simp [initial, Attempt.unborn] at h
  · exact fun _ => Nat.zero_le 1
  · exact fun _ _ => Nat.zero_le 1
  · intro id a h
    simp [initial] at h
  · exact causal_nil _
  · intro k
    constructor
    · exact fun _ => hof k
    · intro a h
      contradiction
    · intro due l h
      contradiction
    · intro b h
      contradiction
    · intro v h
      contradiction
    · intro p q hp
      exact absurd hp (hof k p)
    · intro _ p q hp
      exact absurd hp (hof k p)

theorem inv_apply {c : Calls} (hi : c.Inv) (mp : Msgpack) (e : Event) (he : c.enabled e = true) :
    (c.apply mp e).Inv := by
  cases e with
  | tick ms => exact inv_clock hi _ _
  | connected => exact inv_clock hi _ _
  | callWithOptions method params opts => exact inv_callWithOptions hi mp method params opts
  | respond id r => exact inv_respond hi id r
  | expire a => exact inv_expire hi a
  | onTransportClose => exact inv_onTransportClose hi
  | resume k => exact inv_resume hi mp he
  | giveUp k => exact inv_giveUp hi he
  | emitReconnect => exact inv_emitReconnect hi
  | removeAllListeners => exact inv_removeAllListeners hi

theorem inv_reach {mp : Msgpack} {ok : Guard Calls Event} {c : Calls}
    (h : (machine mp).Reach ok c) : c.Inv := by
  refine h.invariant ?_ ?_
  · rintro c rfl
    exact inv_initial
  · intro c e d _ hi hs _
    obtain ⟨he, rfl⟩ := Machine.ofEnabled_step.mp hs
    exact inv_apply hi mp e he

/-- What `callWithOptions` promises about the frames it writes. -/
structure RetryContract (c : Calls) : Prop where
  once : ∀ k, (c.calls k).idempotent = false → c.log.countP (·.writes k) ≤ 1
  retried : Causal Retried c.log
  alone : ∀ p q, c.Pending p → c.Pending q → (c.attempts p).call = (c.attempts q).call → p = q
  result : ∀ k v, (c.calls k).pc = .done (.result v) →
    ∃ a id, .settled k a (some id) (.result v) ∈ c.log

theorem Inv.retryContract {c : Calls} (hi : c.Inv) : c.RetryContract where
  once := hi.frames
  retried := hi.causal.imp (fun _ _ h => h.2)
  alone _ _ := pending_unique hi
  result k := (hi.calls k).result

end Calls

end UnoQ.Client
