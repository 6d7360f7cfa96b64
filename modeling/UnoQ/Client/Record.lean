import UnoQ.Client.Frames

/-!
# Calls made earlier

What every step leaves of the calls made before it: what they ask for, and the record of what has become
of them, to which a step only adds.
-/

namespace UnoQ.Client
open Codec Transition

/-- The entry records a RESPONSE with a result for the call. -/
def Happening.acknowledges (k : ℕ) : Happening → Bool
  | .settled x _ (some _) (.result _) => x = k
  | _ => false

namespace Calls

def acknowledged (c : Calls) (k : ℕ) : Bool := c.log.any (·.acknowledges k)

structure Keeps (c d : Calls) : Prop where
  born : c.nextCall ≤ d.nextCall
  call : ∀ k < c.nextCall, (d.calls k).method = (c.calls k).method ∧
    (d.calls k).params = (c.calls k).params ∧ (d.calls k).idempotent = (c.calls k).idempotent
  log : c.log <+: d.log

theorem Keeps.refl (c : Calls) : c.Keeps c :=
  ⟨Nat.le_refl _, fun _ _ => ⟨rfl, rfl, rfl⟩, List.prefix_rfl⟩

theorem Keeps.trans {c d e : Calls} (h : c.Keeps d) (h' : d.Keeps e) : c.Keeps e where
  born := Nat.le_trans h.born h'.born
  call k hk := by
    obtain ⟨hm, hp, hi⟩ := h.call k hk
    obtain ⟨hm', hp', hi'⟩ := h'.call k (Nat.lt_of_lt_of_le hk h.born)
    exact ⟨hm'.trans hm, hp'.trans hp, hi'.trans hi⟩
  log := h.log.trans h'.log

theorem Keeps.acknowledged {c d : Calls} (h : c.Keeps d) {k : ℕ} (hk : c.acknowledged k = true) :
    d.acknowledged k = true := by
  obtain ⟨more, hmore⟩ := h.log
  unfold Calls.acknowledged
  rw [← hmore, List.any_append, show c.log.any (·.acknowledges k) = true from hk]
  rfl

theorem keeps_retire (c : Calls) (id a : ℕ) (via : Option ℕ) (r : Settlement) :
    c.Keeps (c.retire id a via r) :=
  ⟨Nat.le_refl _, fun _ _ => ⟨rfl, rfl, rfl⟩, List.prefix_append _ _⟩

theorem keeps_respond (c : Calls) (id : ℕ) (r : Settlement) : c.Keeps (c.respond id r) := by
  unfold respond
  split
  · exact .refl c
  · exact keeps_retire ..

theorem keeps_expire (c : Calls) (a : ℕ) : c.Keeps (c.expire a) := by
  unfold expire
  split
  · exact .refl c
  · exact keeps_retire ..

theorem keeps_rejectAll (l : List (ℕ × ℕ)) : ∀ c : Calls, c.Keeps (rejectAll l c) := by
  induction l with
  | nil => exact .refl
  | cons p rest ih => exact fun c => (keeps_retire ..).trans (ih _)

theorem keeps_onTransportClose (c : Calls) : c.Keeps c.onTransportClose := by
  have hdown : c.Keeps { c with connected := false } :=
    ⟨Nat.le_refl _, fun _ _ => ⟨rfl, rfl, rfl⟩, List.prefix_rfl⟩
  have hclosed : ∀ d : Calls, d.Keeps { d with log := d.log ++ [.closed] } :=
    fun d => ⟨Nat.le_refl _, fun _ _ => ⟨rfl, rfl, rfl⟩, List.prefix_append _ _⟩
  exact (hdown.trans (keeps_rejectAll _ _)).trans (hclosed _)

theorem keeps_setPc (c : Calls) (k : ℕ) (pc : Pc) : c.Keeps (c.setPc k pc) := by
  refine ⟨Nat.le_refl _, fun x _ => ?_, List.prefix_rfl⟩
  rw [setPc_calls]
  split
  next h => rw [h]; exact ⟨rfl, rfl, rfl⟩
  next => exact ⟨rfl, rfl, rfl⟩

theorem keeps_attempt (mp : Msgpack) (c : Calls) (k : ℕ) : c.Keeps (c.attempt mp k) := by
  have henter : ∀ (d : Calls) att more, d.calls = c.calls → d.nextCall = c.nextCall → d.log = c.log →
      c.Keeps (d.enter k att more) := by
    intro d att more hcalls hnext hlog
    refine ⟨Nat.le_of_eq hnext.symm, fun x hx => ?_, ?_⟩
    · have hset := (keeps_setPc d k (.awaiting d.nextAttempt)).call x (hnext ▸ hx)
      rw [hcalls] at hset
      exact hset
    · rw [← hlog]
      exact List.prefix_append _ _
  unfold attempt
  dsimp only
  split
  · split <;> exact henter _ _ _ rfl rfl rfl
  · exact henter _ _ _ rfl rfl rfl

theorem keeps_invoke (c : Calls) (method : String) (params : List JsValue) (opts : CallOptions) :
    c.Keeps (c.invoke method params opts) := by
  refine ⟨Nat.le_succ _, fun k hk => ?_, List.prefix_rfl⟩
  have hold : (c.invoke method params opts).calls k = c.calls k :=
    Function.update_of_ne (Nat.ne_of_lt hk) _ _
  rw [hold]
  exact ⟨rfl, rfl, rfl⟩

theorem keeps_callWithOptions (mp : Msgpack) (c : Calls) (method : String) (params : List JsValue)
    (opts : CallOptions) : c.Keeps (c.callWithOptions mp method params opts) :=
  (keeps_invoke ..).trans (keeps_attempt ..)

theorem keeps_resume (mp : Msgpack) (c : Calls) (k : ℕ) : c.Keeps (c.resume mp k) := by
  unfold resume
  split
  · split
    · exact .refl c
    · exact keeps_setPc ..
    · unfold caught
      dsimp only
      split
      · exact keeps_setPc ..
      · split <;> exact keeps_setPc ..
  · exact keeps_attempt ..
  · exact keeps_setPc ..
  · exact .refl c

theorem keeps_emitReconnect (c : Calls) : c.Keeps c.emitReconnect := by
  refine ⟨Nat.le_refl _, fun k _ => ?_, List.prefix_append _ _⟩
  change (wakeOne (c.calls k)).method = _ ∧ (wakeOne (c.calls k)).params = _ ∧
    (wakeOne (c.calls k)).idempotent = _
  rcases wakeOne_eq (c.calls k) with h | ⟨due, -, h⟩ <;> rw [h] <;> exact ⟨rfl, rfl, rfl⟩

theorem keeps_removeAllListeners (c : Calls) : c.Keeps c.removeAllListeners := by
  refine ⟨Nat.le_refl _, fun k _ => ?_, List.prefix_rfl⟩
  change (unlistenOne (c.calls k)).method = _ ∧ (unlistenOne (c.calls k)).params = _ ∧
    (unlistenOne (c.calls k)).idempotent = _
  rcases unlistenOne_eq (c.calls k) with h | ⟨due, l, -, h⟩ <;> rw [h] <;> exact ⟨rfl, rfl, rfl⟩

theorem keeps_apply (mp : Msgpack) (c : Calls) (e : Event) : c.Keeps (c.apply mp e) := by
  cases e with
  | tick ms => exact ⟨Nat.le_refl _, fun _ _ => ⟨rfl, rfl, rfl⟩, List.prefix_rfl⟩
  | connected => exact ⟨Nat.le_refl _, fun _ _ => ⟨rfl, rfl, rfl⟩, List.prefix_rfl⟩
  | callWithOptions method params opts => exact keeps_callWithOptions ..
  | respond id r => exact keeps_respond ..
  | expire a => exact keeps_expire ..
  | onTransportClose => exact keeps_onTransportClose c
  | resume k => exact keeps_resume ..
  | giveUp k => exact keeps_setPc ..
  | emitReconnect => exact keeps_emitReconnect c
  | removeAllListeners => exact keeps_removeAllListeners c

theorem acknowledged_of_result {c : Calls} (hi : c.Inv) {k : ℕ} {v : JsValue}
    (h : (c.calls k).pc = .done (.result v)) : c.acknowledged k = true := by
  obtain ⟨a, id, hmem⟩ := (hi.calls k).result v h
  exact List.any_eq_true.mpr ⟨_, hmem, decide_eq_true rfl⟩

end Calls

namespace Bridge

theorem keeps_step (host : Host) {s : Bridge} {e : Event} (he : s.enabled e = true) :
    s.calls.Keeps (s.apply host e).calls := by
  refine (calls_apply host he).invariant (P := fun c => s.calls.Keeps c) (fun c hc => ?_)
    fun c ev d _ hkeeps hstep _ => ?_
  · have hc : c = s.calls := hc
    rw [hc]
    exact .refl _
  · obtain ⟨-, rfl⟩ := Machine.ofEnabled_step.mp hstep
    exact hkeeps.trans (Calls.keeps_apply host.mp c ev)

end Bridge

end UnoQ.Client
