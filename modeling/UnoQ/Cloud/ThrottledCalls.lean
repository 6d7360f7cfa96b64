import UnoQ.Cloud.Quota
import UnoQ.Cloud.Throttle

/-!
# The wrappers and their throttle

The REST wrappers take their tokens as `acquireRestToken` by itself gives them: what a call does
with its token afterwards takes no part in the throttle. So the law of the token bucket is one of
their runs too.
-/

namespace UnoQ.Cloud
open Transition TokenBudget

def CallPhase.acquirePhase : CallPhase → AcquirePhase
  | .queued => .chained
  | .sleeping wakeAt => .sleeping wakeAt
  | _ => .granted

/-- The calls of the wrappers are the acquires of the throttle. -/
structure RestApi.Uses (s : RestApi) (t : Throttle) : Prop where
  now : t.now = s.now
  buckets : t.buckets = s.buckets
  next : t.nextAcquire = s.nextCall
  phase : ∀ x, (t.acquires x).phase = (s.calls x).phase.acquirePhase
  key : ∀ x, (t.acquires x).phase ≠ .granted → (t.acquires x).key = (s.calls x).key

namespace RestApi

theorem uses_initial (now : ℤ) : (initial now).Uses (.initial now) :=
  ⟨rfl, rfl, rfl, fun _ => rfl, fun _ hx => absurd rfl hx⟩

theorem Uses.bucketFor {s : RestApi} {t : Throttle} (h : s.Uses t) (key : String) :
    t.bucketFor key = s.bucketFor key := by
  unfold Throttle.bucketFor RestApi.bucketFor
  rw [h.buckets, h.now]

theorem Uses.bucket {s : RestApi} {t : Throttle} (h : s.Uses t) {x : ℕ}
    (hx : (t.acquires x).phase ≠ .granted) : t.bucket x = s.bucket x := by
  unfold Throttle.bucket RestApi.bucket
  rw [h.key x hx]
  exact h.bucketFor _

/-- A call that has its token takes no part in the throttle. -/
theorem Uses.setPhase {s : RestApi} {t : Throttle} (h : s.Uses t) {x : ℕ}
    (hx : (s.calls x).phase.acquirePhase = .granted) {phase : CallPhase}
    (hphase : phase.acquirePhase = .granted) : (s.setPhase x phase).Uses t where
  now := h.now
  buckets := h.buckets
  next := h.next
  phase y := by
    by_cases hyx : y = x
    · subst hyx
      rw [h.phase, calls_setPhase_self, hx]
      exact hphase.symm
    · rw [h.phase, calls_setPhase_ne s hyx]
  key y hy := by
    have hyx : y ≠ x := by
      rintro rfl
      rw [h.phase, hx] at hy
      exact hy rfl
    rw [h.key y hy, calls_setPhase_ne s hyx]

/-- A link leaves its call and its bucket in the same way on both sides. -/
theorem Uses.leave {s : RestApi} {t : Throttle} (h : s.Uses t) {x : ℕ} {a : Acquire} {b : Bucket}
    {phase : CallPhase} {grants : List Grant} (hx : (t.acquires x).phase ≠ .granted)
    (hphase : a.phase = phase.acquirePhase) (hkey : a.key = (t.acquires x).key) :
    ((s.setBucket (s.calls x).key b).setPhase x phase).Uses (t.leave x a b grants) where
  now := h.now
  buckets := by
    show t.buckets.set (t.acquires x).key b = s.buckets.set (s.calls x).key b
    rw [h.buckets, h.key x hx]
  next := h.next
  phase y := by
    by_cases hyx : y = x
    · subst hyx
      rw [Throttle.leave_self, calls_setPhase_self]
      exact hphase
    · rw [Throttle.leave_other hyx, calls_setPhase_ne _ hyx]
      exact h.phase y
  key y hy := by
    by_cases hyx : y = x
    · subst hyx
      rw [Throttle.leave_self, calls_setPhase_self, hkey]
      exact h.key y hx
    · rw [Throttle.leave_other hyx] at hy ⊢
      rw [calls_setPhase_ne _ hyx]
      exact h.key y hy

theorem calls_call_self (s : RestApi) (operation : Operation) (credential : TokenRequest) :
    (s.call operation credential).calls s.nextCall = ⟨operation, credential, .queued⟩ :=
  Function.update_self ..

theorem calls_call_ne (s : RestApi) (operation : Operation) (credential : TokenRequest) {y : ℕ}
    (hy : y ≠ s.nextCall) : (s.call operation credential).calls y = s.calls y :=
  Function.update_of_ne hy _ _

theorem Uses.call {s : RestApi} {t : Throttle} (h : s.Uses t) (operation : Operation)
    (credential : TokenRequest) :
    (s.call operation credential).Uses (t.acquireRestToken (throttleKey credential)) where
  now := h.now
  buckets := by
    show t.buckets.set _ _ = s.buckets.set _ _
    rw [h.buckets, h.bucketFor, h.next]
  next := congrArg Nat.succ h.next
  phase y := by
    by_cases hy : y = t.nextAcquire
    · rw [hy, Throttle.acquires_self, h.next, calls_call_self]
      rfl
    · rw [Throttle.acquires_other t _ hy, h.phase]
      rw [h.next] at hy
      rw [calls_call_ne s operation credential hy]
  key y hy := by
    by_cases hyn : y = t.nextAcquire
    · rw [hyn, Throttle.acquires_self, h.next, calls_call_self]
      rfl
    · rw [Throttle.acquires_other t _ hyn] at hy ⊢
      rw [h.key y hy]
      rw [h.next] at hyn
      rw [calls_call_ne s operation credential hyn]

theorem Uses.link {s : RestApi} {t : Throttle} (h : s.Uses t) {x : ℕ}
    (hx : (t.acquires x).phase ≠ .granted) : (s.link x).Uses (t.link x) := by
  unfold RestApi.link Throttle.link
  dsimp only
  rw [h.bucket hx, h.now]
  by_cases hlt : ((s.bucket x).refill s.now).tokens < 1
  · rw [if_pos hlt, if_pos hlt]
    refine h.leave hx ?_ rfl
    show AcquirePhase.sleeping (t.now + _) = _
    rw [h.now]
    rfl
  · rw [if_neg hlt, if_neg hlt]
    exact h.leave hx rfl rfl

theorem Uses.wake {s : RestApi} {t : Throttle} (h : s.Uses t) {x : ℕ}
    (hx : (t.acquires x).phase ≠ .granted) : (s.wake x).Uses (t.wake x) := by
  unfold RestApi.wake Throttle.wake
  rw [h.bucket hx, h.now]
  exact h.leave hx rfl rfl

theorem Uses.frame {s s' : RestApi} {t : Throttle} (h : s.Uses t) (hnow : s'.now = s.now)
    (hbuckets : s'.buckets = s.buckets) (hcalls : s'.calls = s.calls)
    (hnext : s'.nextCall = s.nextCall) : s'.Uses t where
  now := h.now.trans hnow.symm
  buckets := h.buckets.trans hbuckets.symm
  next := h.next.trans hnext.symm
  phase x := by
    rw [hcalls]
    exact h.phase x
  key x hx := by
    rw [hcalls]
    exact h.key x hx

theorem Uses.step {s s' : RestApi} {t : Throttle} (h : s.Uses t) {e : Event}
    (hstep : s.step e = some s') :
    s'.Uses t ∨ ∃ e' t', t.step e' = some t' ∧ s'.Uses t' := by
  cases effect_of_step hstep with
  | tick ms =>
    refine .inr ⟨.tick ms, _, rfl, ?_⟩
    have hnow : t.now + (ms : ℕ) = s.now + (ms : ℕ) := by rw [h.now]
    exact ⟨hnow, h.buckets, h.next, h.phase, h.key⟩
  | call operation credential =>
    exact .inr ⟨.acquireRestToken (throttleKey credential), _, rfl, h.call operation credential⟩
  | @link x hqueued hhead =>
    have hchained : (t.acquires x).phase = .chained := by
      rw [h.phase, hqueued]
      rfl
    have hx : (t.acquires x).phase ≠ .granted := by simp [hchained]
    have hfirst : (t.bucket x).chain.head? = some x := by
      rw [h.bucket hx]
      exact hhead
    exact .inr ⟨.link x, t.link x, if_pos ⟨hchained, hfirst⟩, h.link hx⟩
  | @wake x wakeAt hphase hwake =>
    have hsleeping : (t.acquires x).phase = .sleeping wakeAt := by
      rw [h.phase, hphase]
      rfl
    have hx : (t.acquires x).phase ≠ .granted := by simp [hsleeping]
    refine .inr ⟨.wake x, t.wake x, ?_, h.wake hx⟩
    simp only [Throttle.step, hsleeping, h.now, if_pos hwake]
  | @getAccessToken x hphase =>
    have hx : (s.calls x).phase.acquirePhase = .granted := by
      rw [hphase]
      rfl
    unfold RestApi.getAccessToken
    dsimp only
    cases (s.getEntry (cacheKey (s.calls x).credential)).cached s.now with
    | some accessToken => exact .inl (h.setPhase hx rfl)
    | none =>
      cases (s.getEntry (cacheKey (s.calls x).credential)).pending with
      | some f => exact .inl (h.setPhase hx rfl)
      | none =>
        have hset : (s.setPhase x (.fetching s.nextFetch)).Uses t := h.setPhase hx rfl
        exact .inl (hset.frame rfl rfl rfl rfl)
  | answered response => exact .inl (h.frame rfl rfl rfl rfl)
  | settle => exact .inl (h.frame rfl rfl rfl rfl)
  | @resume x f outcome hphase =>
    have hx : (s.calls x).phase.acquirePhase = .granted := by
      rw [hphase]
      rfl
    cases outcome with
    | ok token => exact .inl (h.setPhase hx rfl)
    | error message => exact .inl (h.setPhase hx rfl)
  | @request x accessToken hphase =>
    have hx : (s.calls x).phase.acquirePhase = .granted := by
      rw [hphase]
      rfl
    have hset : (s.setPhase x .requested).Uses t := h.setPhase hx rfl
    exact .inl (hset.frame rfl rfl rfl rfl)

/-- The buckets of the wrappers keep the law: in every run they are those of a run of the throttle. -/
theorem uses_reach {s : RestApi} (h : machine.Reach always s) :
    ∃ t, Throttle.machine.Reach always t ∧ s.Uses t := by
  refine h.invariant (P := fun s => ∃ t, Throttle.machine.Reach always t ∧ s.Uses t) ?_ ?_
  · intro s hs
    obtain ⟨now, rfl⟩ := hs
    exact ⟨.initial now, .init ⟨now, rfl⟩, uses_initial now⟩
  · intro s e s' _ hs hstep _
    obtain ⟨t, ht, huses⟩ := hs
    rcases huses.step hstep with hsame | ⟨e', t', hstep', huses'⟩
    · exact ⟨t, ht, hsame⟩
    · exact ⟨t', ht.step hstep' trivial, huses'⟩

theorem tokens_reach {s : RestApi} (h : machine.Reach always s) {key : String} {b : Bucket}
    (hb : s.buckets.get key = some b) : 0 ≤ b.tokens ∧ b.tokens ≤ 10 := by
  obtain ⟨t, ht, huses⟩ := uses_reach h
  rw [← huses.buckets] at hb
  exact ((Throttle.inv_reach ht).tokenLaw key).tokens b hb

end RestApi

end UnoQ.Cloud
