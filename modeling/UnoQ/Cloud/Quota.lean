import UnoQ.Cloud.RestApi
import UnoQ.Lib.Counting

/-!
# The REST quota at the point of request

A bucket bounds how many calls take a token in a window. Between the token and the request a call
awaits its access token, and the calls that one fetch holds back start their requests together when
it ends, while the bucket has been refilled behind them. The quota holds at the point of request as
long as the refilled bucket and the calls that hold a token have room in the bucket together: then
what may still be requested at once never exceeds the capacity.
-/

namespace UnoQ.Cloud
open Transition TokenBudget

namespace RestApi

/-- The times at which calls of a throttle key have started their requests. -/
def startTimes (s : RestApi) (key : String) : List ℤ :=
  (s.requests.filter fun r => decide (r.key = key)).map RestRequest.startedAt

def holds (s : RestApi) (key : String) (x : ℕ) : Bool :=
  (s.calls x).phase.holding && decide ((s.calls x).key = key)

/-- The calls of the key that have a token of the bucket and have not started their request. -/
def outstanding (s : RestApi) (key : String) : ℕ :=
  Nat.count (fun x => s.holds key x = true) s.nextCall

/-- What the bucket of the key has, were it looked at. -/
def refilled (s : RestApi) (key : String) : ℚ := ((s.bucketFor key).refill s.now).tokens

/-- Time passes only while the tokens that the bucket then has and the calls that hold one and have
not started their request are together no more than the bucket has room for. -/
def Uncrowded (key : String) : Guard RestApi Event := fun s e _ =>
  match e with
  | .tick ms => ((s.bucketFor key).refill (s.now + (ms : ℕ))).tokens + s.outstanding key ≤ CAPACITY
  | _ => True

instance (key : String) (s : RestApi) : ∀ e t, Decidable (Uncrowded key s e t) := by
  rintro (_ | _) t <;> dsimp only [Uncrowded] <;> infer_instance

/-! ### The invariant -/

/-- A sleeping link is the first of its chain, and will find its token when it wakes. The credit is
what the bucket has and what the calls of the key hold. -/
structure Throttled (key : String) (s : RestApi) : Prop where
  unborn : ∀ x, s.nextCall ≤ x → s.calls x = .absent
  sleeping : ∀ x wakeAt, (s.calls x).phase = .sleeping wakeAt → (s.calls x).key = key →
    (s.bucketFor key).chain.head? = some x ∧
      1 ≤ (s.bucketFor key).tokens + Bucket.gain (wakeAt - (s.bucketFor key).lastRefill)
  sound : (s.bucketFor key).Sound s.now
  kept : Kept CAPACITY Bucket.gain (s.startTimes key) (s.refilled key + s.outstanding key) s.now

variable {key : String}

theorem born {s : RestApi} (h : Throttled key s) {x : ℕ} {phase : CallPhase}
    (hx : (s.calls x).phase = phase) (hne : ∀ message, phase ≠ .failed message) :
    x < s.nextCall := by
  by_contra hge
  rw [h.unborn x (by omega)] at hx
  exact hne "" hx.symm

theorem outstanding_initial (now : ℤ) (key : String) : (initial now).outstanding key = 0 := rfl

theorem throttled_initial (now : ℤ) : Throttled key (initial now) where
  unborn _ _ := rfl
  sleeping _ _ := nofun
  sound := Bucket.sound_new now
  kept := by
    refine kept_start (fun _ _ => Bucket.gain_le_gain) capacity_nonneg ?_ now
    rw [outstanding_initial, Nat.cast_zero, add_zero]
    exact (Bucket.sound_new now).refill.le

/-- Access tokens do not matter to the throttle. -/
theorem Throttled.frame {s t : RestApi} (h : Throttled key s) (hnow : t.now = s.now)
    (hbuckets : t.buckets = s.buckets) (hcalls : t.calls = s.calls)
    (hnext : t.nextCall = s.nextCall) (hrequests : t.requests = s.requests) : Throttled key t := by
  cases s
  cases t
  dsimp only at hnow hbuckets hcalls hnext hrequests
  subst hnow hbuckets hcalls hnext hrequests
  exact ⟨h.unborn, h.sleeping, h.sound, h.kept⟩

/-! ### Time -/

theorem bucketFor_tick (s : RestApi) (ms : ℕ) (key : String) :
    RestApi.bucketFor { s with now := s.now + (ms : ℕ) } key = s.bucketFor key ∨
      (s.bucketFor key = .new s.now ∧
        RestApi.bucketFor { s with now := s.now + (ms : ℕ) } key = .new (s.now + ms)) := by
  unfold bucketFor
  dsimp only
  cases s.buckets.get key with
  | some b => exact .inl rfl
  | none => exact .inr ⟨rfl, rfl⟩

theorem throttled_tick {s : RestApi} (h : Throttled key s) {ms : ℕ}
    (hg : ((s.bucketFor key).refill (s.now + ms)).tokens + s.outstanding key ≤ CAPACITY) :
    Throttled key { s with now := s.now + (ms : ℕ) } := by
  have hle : s.now ≤ s.now + (ms : ℕ) := by omega
  have hgap : s.now + (ms : ℕ) - s.now = ms := by omega
  rcases bucketFor_tick s ms key with hsame | ⟨hold, hnew⟩
  · constructor
    case unborn => exact h.unborn
    case sleeping =>
      rw [hsame]
      exact h.sleeping
    case sound =>
      rw [hsame]
      exact h.sound.later hle
    case kept =>
      refine h.kept.wait (fun _ _ => Bucket.gain_le_gain) hle ?_ ?_
      · have hgrow := h.sound.tokens_later ms
        show (RestApi.refilled { s with now := s.now + (ms : ℕ) } key) + s.outstanding key ≤ _
        unfold refilled
        rw [hsame, hgap]
        dsimp only
        linarith
      · show (RestApi.refilled { s with now := s.now + (ms : ℕ) } key) + s.outstanding key ≤ _
        unfold refilled
        rw [hsame]
        exact hg
  · have hfull : ∀ now, ((Bucket.new now).refill now).tokens = CAPACITY := by
      intro now
      have hrefill : (Bucket.new now).refill now = .new now := Bucket.refill_of_le le_rfl
      rw [hrefill]
      rfl
    have hsum : RestApi.refilled { s with now := s.now + (ms : ℕ) } key = s.refilled key := by
      unfold refilled
      rw [hold, hnew, hfull, hfull]
    constructor
    case unborn => exact h.unborn
    case sleeping =>
      intro x wakeAt hx hkey
      obtain ⟨hhead, -⟩ := h.sleeping x wakeAt hx hkey
      rw [hold] at hhead
      contradiction
    case sound =>
      rw [hnew]
      exact Bucket.sound_new _
    case kept =>
      refine h.kept.wait (fun _ _ => Bucket.gain_le_gain) hle ?_ ?_
      · have hgain := gain_nonneg (fun _ _ => Bucket.gain_le_gain) (Int.natCast_nonneg ms)
        show (RestApi.refilled { s with now := s.now + (ms : ℕ) } key) + s.outstanding key ≤ _
        rw [hsum, hgap]
        linarith
      · show (RestApi.refilled { s with now := s.now + (ms : ℕ) } key) + s.outstanding key ≤ _
        rw [hsum]
        exact h.kept.bounded

/-! ### Calls -/

theorem calls_setPhase_ne (s : RestApi) {x y : ℕ} (hyx : y ≠ x) (phase : CallPhase) :
    (s.setPhase x phase).calls y = s.calls y := Function.update_of_ne hyx _ _

theorem calls_setPhase_self (s : RestApi) (x : ℕ) (phase : CallPhase) :
    (s.setPhase x phase).calls x = { s.calls x with phase := phase } := Function.update_self ..

theorem holds_setPhase_ne {s : RestApi} {x y : ℕ} (hyx : y ≠ x) (phase : CallPhase) :
    (s.setPhase x phase).holds key y = s.holds key y := by
  simp only [holds, calls_setPhase_ne s hyx]

theorem holds_setPhase_self (s : RestApi) (x : ℕ) (phase : CallPhase) :
    (s.setPhase x phase).holds key x = (phase.holding && decide ((s.calls x).key = key)) := by
  simp only [holds, calls_setPhase_self]
  rfl

theorem outstanding_setPhase {s : RestApi} {x : ℕ} (hx : x < s.nextCall) (phase : CallPhase) :
    (s.setPhase x phase).outstanding key + (s.holds key x).toNat =
      s.outstanding key + (phase.holding && decide ((s.calls x).key = key)).toNat := by
  rw [← holds_setPhase_self s x phase]
  exact Counting.count_change hx fun y hy => holds_setPhase_ne hy phase

theorem key_setPhase (s : RestApi) (x : ℕ) (phase : CallPhase) (y : ℕ) :
    ((s.setPhase x phase).calls y).key = (s.calls y).key := by
  by_cases hyx : y = x
  · subst hyx
    rw [calls_setPhase_self]
    rfl
  · rw [calls_setPhase_ne s hyx]

theorem unborn_setPhase {s : RestApi} (h : ∀ y, s.nextCall ≤ y → s.calls y = .absent) {x : ℕ}
    (hx : x < s.nextCall) (phase : CallPhase) (y : ℕ) (hy : s.nextCall ≤ y) :
    (s.setPhase x phase).calls y = .absent := by
  rw [calls_setPhase_ne s (by omega)]
  exact h y hy

/-- A call that holds a token goes on, or ends. -/
theorem throttled_setPhase {s : RestApi} (h : Throttled key s) {x : ℕ} (hx : x < s.nextCall)
    (hold : (s.calls x).phase.holding = true) {phase : CallPhase}
    (hawake : ∀ wakeAt, phase ≠ .sleeping wakeAt) : Throttled key (s.setPhase x phase) := by
  constructor
  case unborn => exact unborn_setPhase h.unborn hx phase
  case sleeping =>
    intro y wakeAt hy hkey
    by_cases hyx : y = x
    · subst hyx
      rw [calls_setPhase_self] at hy
      exact absurd hy (hawake wakeAt)
    · rw [calls_setPhase_ne s hyx] at hy
      rw [key_setPhase] at hkey
      exact h.sleeping y wakeAt hy hkey
  case sound => exact h.sound
  case kept =>
    have hcount : (s.setPhase x phase).outstanding key + _ = _ := outstanding_setPhase hx phase
    have hle : (s.setPhase x phase).outstanding key ≤ s.outstanding key := by
      unfold holds at hcount
      rw [hold] at hcount
      have hbool : (phase.holding && decide ((s.calls x).key = key)).toNat ≤
          (true && decide ((s.calls x).key = key)).toNat := by
        cases phase.holding <;> simp
      omega
    have hcast : ((s.setPhase x phase).outstanding key : ℚ) ≤ s.outstanding key := by
      exact_mod_cast hle
    refine h.kept.drop ?_
    show s.refilled key + _ ≤ _
    linarith

/-! ### The chain -/

theorem bucketFor_setBucket (s : RestApi) (k : String) (b : Bucket) (key : String) :
    (s.setBucket k b).bucketFor key = if k = key then b else s.bucketFor key := by
  unfold bucketFor setBucket
  dsimp only
  rw [InsertMap.get_set]
  by_cases hk : k = key
  · rw [if_pos hk, if_pos hk, Option.getD_some]
  · rw [if_neg hk, if_neg hk]

/-- The first call of a chain goes to sleep or takes its token. The bucket and the calls have as much
as before together. -/
theorem throttled_first {s : RestApi} (h : Throttled key s) {x : ℕ} (hx : x < s.nextCall)
    (hold : (s.calls x).phase.holding = false) {b : Bucket} {phase : CallPhase}
    (hhead : (s.calls x).key = key → (s.bucketFor key).chain.head? = some x)
    (hsound : (s.calls x).key = key → b.Sound s.now)
    (hsum : (s.calls x).key = key →
      (b.refill s.now).tokens + (phase.holding.toNat : ℚ) = s.refilled key)
    (hsleep : (s.calls x).key = key → ∀ wakeAt, phase = .sleeping wakeAt →
      b.chain.head? = some x ∧ 1 ≤ b.tokens + Bucket.gain (wakeAt - b.lastRefill)) :
    Throttled key ((s.setBucket (s.calls x).key b).setPhase x phase) := by
  have hcount : ((s.setBucket (s.calls x).key b).setPhase x phase).outstanding key +
      (s.holds key x).toNat = s.outstanding key +
        (phase.holding && decide ((s.calls x).key = key)).toNat := outstanding_setPhase hx phase
  have hzero : s.holds key x = false := by
    unfold holds
    rw [hold]
    rfl
  rw [hzero, Bool.toNat_false, Nat.add_zero] at hcount
  have hbucket : ((s.setBucket (s.calls x).key b).setPhase x phase).bucketFor key =
      if (s.calls x).key = key then b else s.bucketFor key := bucketFor_setBucket s _ b key
  constructor
  case unborn => exact unborn_setPhase (s := s.setBucket (s.calls x).key b) h.unborn hx phase
  case sleeping =>
    intro y wakeAt hy hkey
    rw [key_setPhase] at hkey
    rw [hbucket]
    by_cases hyx : y = x
    · subst hyx
      rw [calls_setPhase_self] at hy
      have hk : (s.calls y).key = key := hkey
      rw [if_pos hk]
      exact hsleep hk wakeAt hy
    · rw [calls_setPhase_ne _ hyx] at hy
      obtain ⟨hfirst, hone⟩ := h.sleeping y wakeAt hy hkey
      by_cases hk : (s.calls x).key = key
      · have heq := hfirst.symm.trans (hhead hk)
        exact absurd (Option.some.inj heq) hyx
      · rw [if_neg hk]
        exact ⟨hfirst, hone⟩
  case sound =>
    rw [hbucket]
    by_cases hk : (s.calls x).key = key
    · rw [if_pos hk]
      exact hsound hk
    · rw [if_neg hk]
      exact h.sound
  case kept =>
    refine h.kept.drop (le_of_eq ?_)
    unfold refilled
    rw [hbucket, hcount]
    by_cases hk : (s.calls x).key = key
    · have hafter : (b.refill s.now).tokens + (phase.holding.toNat : ℚ) =
          ((s.bucketFor key).refill s.now).tokens := hsum hk
      rw [if_pos hk, ← hafter, decide_eq_true hk, Bool.and_true]
      show (b.refill s.now).tokens + _ = _
      push_cast
      ring
    · rw [if_neg hk, decide_eq_false hk, Bool.and_false, Bool.toNat_false, Nat.add_zero]
      rfl

theorem bucket_eq {s : RestApi} {x : ℕ} (hk : (s.calls x).key = key) :
    s.bucket x = s.bucketFor key := by
  unfold bucket
  rw [hk]

theorem throttled_grant {s : RestApi} (h : Throttled key s) {x : ℕ} (hx : x < s.nextCall)
    (hold : (s.calls x).phase.holding = false)
    (hhead : (s.calls x).key = key → (s.bucketFor key).chain.head? = some x)
    (hone : (s.calls x).key = key → 1 ≤ ((s.bucketFor key).refill s.now).tokens) :
    Throttled key
      ((s.setBucket (s.calls x).key ((s.bucket x).refill s.now).take).setPhase x .granted) := by
  refine throttled_first h hx hold hhead ?_ ?_ ?_
  · intro hk
    rw [bucket_eq hk]
    exact h.sound.refill.take (hone hk)
  · intro hk
    rw [bucket_eq hk, h.sound.refill_take]
    show ((s.bucketFor key).refill s.now).tokens - 1 + ((1 : ℕ) : ℚ) = s.refilled key
    unfold refilled
    push_cast
    ring
  · intro _ wakeAt hphase
    contradiction

theorem throttled_link {s : RestApi} (h : Throttled key s) {x : ℕ}
    (hphase : (s.calls x).phase = .queued) (hhead : (s.bucket x).chain.head? = some x) :
    Throttled key (s.link x) := by
  have hx : x < s.nextCall := born h hphase (by simp)
  have hold : (s.calls x).phase.holding = false := by
    rw [hphase]
    rfl
  have hfirst : (s.calls x).key = key → (s.bucketFor key).chain.head? = some x := by
    intro hk
    rw [← bucket_eq hk]
    exact hhead
  unfold link
  dsimp only
  by_cases hlt : ((s.bucket x).refill s.now).tokens < 1
  · rw [if_pos hlt]
    refine throttled_first h hx hold hfirst ?_ ?_ ?_
    · intro hk
      rw [bucket_eq hk]
      exact h.sound.refill
    · intro hk
      rw [bucket_eq hk, h.sound.refill_refill]
      show _ + ((0 : ℕ) : ℚ) = _
      rw [Nat.cast_zero, add_zero]
      rfl
    · intro hk wakeAt hsleep
      injection hsleep with hsleep
      subst hsleep
      rw [Bucket.refill_chain]
      refine ⟨hhead, ?_⟩
      rw [bucket_eq hk, Bucket.lastRefill_refill h.sound.past, add_sub_cancel_left]
      exact Bucket.gain_waitMs _
  · rw [if_neg hlt]
    refine throttled_grant h hx hold hfirst fun hk => ?_
    rw [bucket_eq hk] at hlt
    exact not_lt.mp hlt

theorem throttled_wake {s : RestApi} (h : Throttled key s) {x : ℕ} {wakeAt : ℤ}
    (hphase : (s.calls x).phase = .sleeping wakeAt) (hle : wakeAt ≤ s.now) :
    Throttled key (s.wake x) := by
  have hx : x < s.nextCall := born h hphase (by simp)
  have hold : (s.calls x).phase.holding = false := by
    rw [hphase]
    rfl
  refine throttled_grant h hx hold ?_ ?_
  · intro hk
    exact (h.sleeping x wakeAt hphase hk).1
  · intro hk
    exact h.sound.one_le hle (h.sleeping x wakeAt hphase hk).2

/-- A new call goes to the end of its chain. -/
theorem bucketFor_call (s : RestApi) (operation : Operation) (credential : TokenRequest) :
    ∃ rest, (s.call operation credential).bucketFor key =
      { s.bucketFor key with chain := (s.bucketFor key).chain ++ rest } := by
  have hset := bucketFor_setBucket s (throttleKey credential)
    { s.bucketFor (throttleKey credential) with
      chain := (s.bucketFor (throttleKey credential)).chain ++ [s.nextCall] } key
  by_cases hk : throttleKey credential = key
  · rw [if_pos hk, hk] at hset
    refine ⟨[s.nextCall], ?_⟩
    rw [← hset]
    unfold call
    dsimp only
    rw [hk]
    rfl
  · rw [if_neg hk] at hset
    refine ⟨[], ?_⟩
    rw [List.append_nil]
    exact hset

theorem outstanding_call (s : RestApi) (operation : Operation) (credential : TokenRequest) :
    (s.call operation credential).outstanding key = s.outstanding key := by
  have hgrow : Nat.count (fun x => (s.call operation credential).holds key x = true)
      (s.nextCall + 1) = Nat.count (fun x => s.holds key x = true) s.nextCall +
        ((s.call operation credential).holds key s.nextCall).toNat := by
    refine Counting.count_grow fun y hy => ?_
    simp only [holds, call, Function.update_of_ne hy]
  have hqueued : (s.call operation credential).holds key s.nextCall = false := by
    simp only [holds, call, Function.update_self]
    rfl
  rw [hqueued, Bool.toNat_false, Nat.add_zero] at hgrow
  exact hgrow

theorem throttled_call {s : RestApi} (h : Throttled key s) (operation : Operation)
    (credential : TokenRequest) : Throttled key (s.call operation credential) := by
  obtain ⟨rest, hbucket⟩ := bucketFor_call s operation credential
  constructor
  case unborn =>
    intro y hy
    have hlt : s.nextCall + 1 ≤ y := hy
    have hne : y ≠ s.nextCall := by omega
    exact (Function.update_of_ne hne _ _).trans (h.unborn y (by omega))
  case sleeping =>
    intro y wakeAt hy hkey
    by_cases hyn : y = s.nextCall
    · simp only [call, hyn, Function.update_self] at hy
      contradiction
    · simp only [call, Function.update_of_ne hyn] at hy hkey
      obtain ⟨hfirst, hone⟩ := h.sleeping y wakeAt hy hkey
      rw [hbucket]
      refine ⟨?_, hone⟩
      rw [List.head?_append, hfirst]
      rfl
  case sound =>
    rw [hbucket]
    exact ⟨h.sound.past, h.sound.nonneg, h.sound.le⟩
  case kept =>
    refine h.kept.drop (le_of_eq ?_)
    rw [outstanding_call]
    unfold refilled
    rw [hbucket, Bucket.tokens_refill_chain]
    rfl

/-! ### Requests -/

theorem startTimes_request (s : RestApi) (x : ℕ) (accessToken : String) :
    (s.request x accessToken).startTimes key =
      if (s.calls x).key = key then s.startTimes key ++ [s.now] else s.startTimes key := by
  unfold startTimes request
  dsimp only
  rw [List.filter_append, List.map_append]
  by_cases hk : (s.calls x).key = key
  · rw [if_pos hk]
    simp [hk]
  · rw [if_neg hk]
    simp [hk]

theorem throttled_request {s : RestApi} (h : Throttled key s) {x : ℕ} {accessToken : String}
    (hphase : (s.calls x).phase = .authorised accessToken) :
    Throttled key (s.request x accessToken) := by
  have hx : x < s.nextCall := born h hphase (by simp)
  have hset : Throttled key (s.setPhase x .requested) :=
    throttled_setPhase h hx (by rw [hphase]; rfl) nofun
  constructor
  case unborn => exact hset.unborn
  case sleeping => exact hset.sleeping
  case sound => exact hset.sound
  case kept =>
    rw [startTimes_request]
    by_cases hk : (s.calls x).key = key
    · rw [if_pos hk]
      have hcount : (s.request x accessToken).outstanding key + (s.holds key x).toNat =
          s.outstanding key + (CallPhase.requested.holding && decide ((s.calls x).key = key)).toNat :=
        outstanding_setPhase hx .requested
      have hheld : s.holds key x = true := by
        unfold holds
        rw [hphase, decide_eq_true hk]
        rfl
      rw [hheld] at hcount
      have hone : (s.request x accessToken).outstanding key + 1 = s.outstanding key := hcount
      have hcast : ((s.request x accessToken).outstanding key : ℚ) + 1 = s.outstanding key := by
        exact_mod_cast hone
      have htokens : 0 ≤ s.refilled key := h.sound.refill.nonneg
      have hnonneg : (0 : ℚ) ≤ (s.request x accessToken).outstanding key := Nat.cast_nonneg _
      refine (h.kept.spend (fun _ _ => Bucket.gain_le_gain) (by linarith)).drop ?_
      show s.refilled key + _ ≤ _
      linarith
    · rw [if_neg hk]
      exact hset.kept

/-! ### Runs -/

theorem throttled_getAccessToken {s : RestApi} (h : Throttled key s) {x : ℕ}
    (hphase : (s.calls x).phase = .granted) : Throttled key (s.getAccessToken x) := by
  have hx : x < s.nextCall := born h hphase (by simp)
  have hold : (s.calls x).phase.holding = true := by
    rw [hphase]
    rfl
  unfold getAccessToken
  dsimp only
  cases (s.getEntry (cacheKey (s.calls x).credential)).cached s.now with
  | some accessToken => exact throttled_setPhase h hx hold nofun
  | none =>
    cases (s.getEntry (cacheKey (s.calls x).credential)).pending with
    | some f => exact throttled_setPhase h hx hold nofun
    | none =>
      have hset : Throttled key (s.setPhase x (.fetching s.nextFetch)) :=
        throttled_setPhase h hx hold nofun
      exact hset.frame rfl rfl rfl rfl rfl

theorem throttled_step {s t : RestApi} {e : Event} (h : Throttled key s)
    (hstep : machine.step s e = some t) (hg : Uncrowded key s e t) : Throttled key t := by
  cases effect_of_step hstep with
  | tick ms => exact throttled_tick h hg
  | call operation credential => exact throttled_call h operation credential
  | link hqueued hhead => exact throttled_link h hqueued hhead
  | wake hsleeping hle => exact throttled_wake h hsleeping hle
  | getAccessToken hgranted => exact throttled_getAccessToken h hgranted
  | answered response => exact h.frame rfl rfl rfl rfl rfl
  | settle => exact h.frame rfl rfl rfl rfl rfl
  | @resume x f outcome hphase =>
    have hx : x < s.nextCall := born h hphase (by simp)
    have hold : (s.calls x).phase.holding = true := by
      rw [hphase]
      rfl
    cases outcome with
    | ok token => exact throttled_setPhase h hx hold nofun
    | error message => exact throttled_setPhase h hx hold nofun
  | request hauthorised => exact throttled_request h hauthorised

theorem throttled_reach {s : RestApi} (h : machine.Reach (Uncrowded key) s) : Throttled key s := by
  refine h.invariant (P := Throttled key) ?_ ?_
  · intro s hs
    obtain ⟨now, rfl⟩ := hs
    exact throttled_initial now
  · intro s e t _ hs hstep hg
    exact throttled_step hs hstep hg

/-- In a run in which time passes only while the bucket, refilled, and the calls that hold a token
have room in it together, no window of `ms` milliseconds sees more than `10 + ms / 100` requests. -/
theorem quota_of_uncrowded {s : RestApi} (h : machine.Reach (Uncrowded key) s) (start : ℤ) (ms : ℕ) :
    ((between start (start + ms) (s.startTimes key)).length : ℚ) ≤ 10 + ms / 100 := by
  have hwindow := (throttled_reach h).kept.windows start (start + ms) (by omega)
  rw [add_sub_cancel_left, Bucket.gain_eq] at hwindow
  unfold CAPACITY RATE_PER_SEC at hwindow
  push_cast at hwindow
  linarith

def account : TokenRequest := ⟨"client", "secret", none⟩

/-- A call takes its token of the bucket and asks for an access token. -/
def taking (x : ℕ) : List Event := [.call .getProperty account, .link x, .getAccessToken x]

/-- The first of eleven calls fetches the access token in no time; the last one sleeps. -/
def cachedRun : List Event :=
  taking 0 ++ [.answered 0 (.payload (some "token") (some 300)), .settle 0, .resume 0, .request 0] ++
    (List.range' 1 9).flatMap (fun x => taking x ++ [.request x]) ++
    [.call .getProperty account, .link 10, .tick 100, .wake 10, .getAccessToken 10, .request 10]

def cachedState : RestApi := machine.after (Uncrowded (throttleKey account)) (initial 0) cachedRun

theorem cachedRun_quota : (cachedState.startTimes (throttleKey account)).length = 11 ∧
    ((between (0 : ℤ) (0 + (100 : ℕ)) (cachedState.startTimes (throttleKey account))).length : ℚ) ≤
      10 + (100 : ℕ) / 100 := by
  have hinit : machine.Reach (Uncrowded (throttleKey account)) (initial 0) := .init ⟨0, rfl⟩
  exact ⟨by decide +kernel, quota_of_uncrowded (hinit.after cachedRun) 0 100⟩

/-- Ten calls await the access token for 100 ms. The bucket has a token again, so an eleventh call
joins them, and when the fetch ends all eleven start their requests. -/
def heldRun : List Event :=
  (List.range 10).flatMap taking ++ [.tick 100] ++ taking 10 ++
    [.answered 0 (.payload (some "token") (some 300)), .settle 0] ++
    (List.range 11).flatMap fun x => [.resume x, .request x]

def heldState : RestApi := machine.after always (initial 0) heldRun

theorem heldRun_exceeds : ¬ ∀ s, machine.Reach always s → ∀ key (start : ℤ) (ms : ℕ),
    ((between start (start + ms) (s.startTimes key)).length : ℚ) ≤ 10 + ms / 100 := by
  intro h
  have hinit : machine.Reach always (initial 0) := .init ⟨0, rfl⟩
  have hquota := h heldState (hinit.after heldRun) (throttleKey account) 100 0
  have hlen : (between (100 : ℤ) (100 + (0 : ℕ))
      (heldState.startTimes (throttleKey account))).length = 11 := by decide +kernel
  rw [hlen] at hquota
  norm_num at hquota

end RestApi

end UnoQ.Cloud
