import Mathlib.Logic.Function.Basic
import UnoQ.Cloud.RestThrottle
import UnoQ.Lib.InsertMap
import UnoQ.Lib.Transition

/-!
# The law of the token bucket

`acquireRestToken` by itself, for any keys: what its callers do with a token is left out, and each
grant is recorded. Links of one chain end in the order in which they were appended, one sleep is
enough for each, and no bucket gives more than it was made with and what has come in since. The
REST wrappers take their tokens from it.
-/

namespace UnoQ.Cloud
open Transition TokenBudget

/-- `chained`: its link has not begun, `sleeping`: its link awaits `sleep`, `granted`: its link has
taken a token. -/
inductive AcquirePhase
  | chained
  | sleeping (wakeAt : ℤ)
  | granted
  deriving DecidableEq

/-- The `sleeps` are the times that its link has asked for. -/
structure Acquire where
  key : String
  phase : AcquirePhase
  sleeps : List ℤ

def Acquire.absent : Acquire := ⟨"", .granted, []⟩

structure Grant where
  key : String
  acquire : ℕ
  grantedAt : ℤ

structure Throttle where
  now : ℤ
  buckets : InsertMap String Bucket
  acquires : ℕ → Acquire
  nextAcquire : ℕ
  grants : List Grant

namespace Throttle

def initial (now : ℤ) : Throttle := ⟨now, InsertMap.empty, fun _ => .absent, 0, []⟩

def bucketFor (s : Throttle) (key : String) : Bucket := (s.buckets.get key).getD (.new s.now)

/-- The bucket of an acquire. -/
def bucket (s : Throttle) (x : ℕ) : Bucket := s.bucketFor (s.acquires x).key

def acquireRestToken (s : Throttle) (key : String) : Throttle :=
  let b := s.bucketFor key
  { s with
    buckets := s.buckets.set key { b with chain := b.chain ++ [s.nextAcquire] }
    acquires := Function.update s.acquires s.nextAcquire ⟨key, .chained, []⟩
    nextAcquire := s.nextAcquire + 1 }

/-- A link leaves its acquire, its bucket and the record of the grants like this. -/
def leave (s : Throttle) (x : ℕ) (a : Acquire) (b : Bucket) (grants : List Grant) : Throttle :=
  { s with
    buckets := s.buckets.set (s.acquires x).key b
    acquires := Function.update s.acquires x a
    grants := s.grants ++ grants }

def sleep (s : Throttle) (x : ℕ) (b : Bucket) (ms : ℤ) : Throttle :=
  let a := s.acquires x
  s.leave x { a with phase := .sleeping (s.now + ms), sleeps := a.sleeps ++ [ms] } b []

def grant (s : Throttle) (x : ℕ) (b : Bucket) : Throttle :=
  let a := s.acquires x
  s.leave x { a with phase := .granted } b.take [⟨a.key, x, s.now⟩]

/-- The link of an acquire begins. -/
def link (s : Throttle) (x : ℕ) : Throttle :=
  let b := (s.bucket x).refill s.now
  if b.tokens < 1 then s.sleep x b b.waitMs else s.grant x b

/-- The link of an acquire goes on after its sleep. -/
def wake (s : Throttle) (x : ℕ) : Throttle := s.grant x ((s.bucket x).refill s.now)

inductive Event
  | tick (ms : ℕ)
  | acquireRestToken (key : String)
  | link (x : ℕ)
  | wake (x : ℕ)

/-- A link begins when the one before it has ended. A sleep does not end early. -/
def step (s : Throttle) : Event → Option Throttle
  | .tick ms => some { s with now := s.now + ms }
  | .acquireRestToken key => some (s.acquireRestToken key)
  | .link x =>
    if (s.acquires x).phase = .chained ∧ (s.bucket x).chain.head? = some x then some (s.link x)
    else none
  | .wake x =>
    match (s.acquires x).phase with
    | .sleeping wakeAt => if wakeAt ≤ s.now then some (s.wake x) else none
    | _ => none

def machine : Machine Throttle Event where
  init s := ∃ now, s = initial now
  step := step

/-- The acquires of the key, as they were called. -/
def called (s : Throttle) (key : String) : List ℕ :=
  (List.range s.nextAcquire).filter fun x => decide ((s.acquires x).key = key)

def grantsOf (s : Throttle) (key : String) : List Grant :=
  s.grants.filter fun g => decide (g.key = key)

/-- The acquires of the key that have got a token, in the order in which they got it. -/
def granted (s : Throttle) (key : String) : List ℕ := (s.grantsOf key).map Grant.acquire

def grantTimes (s : Throttle) (key : String) : List ℤ := (s.grantsOf key).map Grant.grantedAt

/-! ### The invariant -/

/-- The bucket of the key. A sleeping link is the first of its chain, and will find its token when
it wakes. -/
structure Lawful (s : Throttle) (key : String) (b : Bucket) : Prop where
  sound : b.Sound s.now
  order : s.granted key ++ b.chain = s.called key
  sleeping : ∀ x wakeAt, (s.acquires x).phase = .sleeping wakeAt → (s.acquires x).key = key →
    b.chain.head? = some x ∧ 1 ≤ b.tokens + Bucket.gain (wakeAt - b.lastRefill)
  kept : Kept CAPACITY Bucket.gain (s.grantTimes key) (b.refill s.now).tokens s.now

end Throttle

/-- A link sleeps when it begins, or never. -/
structure Acquire.SleepsOnce (a : Acquire) : Prop where
  chained : a.phase = .chained → a.sleeps = []
  once : a.sleeps.length ≤ 1
  short : ∀ ms ∈ a.sleeps, ms ≤ 100

namespace Throttle

structure Inv (s : Throttle) : Prop where
  unborn : ∀ x, s.nextAcquire ≤ x → s.acquires x = .absent
  fresh : ∀ key, s.buckets.get key = none → s.called key = [] ∧ s.grantsOf key = []
  lawful : ∀ key b, s.buckets.get key = some b → s.Lawful key b
  sleeps : ∀ x, (s.acquires x).SleepsOnce

theorem sleepsOnce_absent : Acquire.absent.SleepsOnce := ⟨nofun, Nat.zero_le 1, nofun⟩

theorem inv_initial (now : ℤ) : (initial now).Inv where
  unborn _ _ := rfl
  fresh _ _ := ⟨rfl, rfl⟩
  lawful _ _ h := by contradiction
  sleeps _ := sleepsOnce_absent

theorem Inv.born {s : Throttle} (h : s.Inv) {x : ℕ} (hx : (s.acquires x).phase ≠ .granted) :
    x < s.nextAcquire := by
  by_contra hge
  rw [h.unborn x (by omega)] at hx
  exact hx rfl

theorem Inv.bucket_some {s : Throttle} (h : s.Inv) {x : ℕ} (hx : (s.acquires x).phase ≠ .granted) :
    ∃ b, s.buckets.get (s.acquires x).key = some b ∧ s.bucket x = b := by
  cases hget : s.buckets.get (s.acquires x).key with
  | some b =>
    refine ⟨b, rfl, ?_⟩
    unfold bucket bucketFor
    rw [hget, Option.getD_some]
  | none =>
    have hmem : x ∈ s.called (s.acquires x).key :=
      List.mem_filter.mpr ⟨List.mem_range.mpr (h.born hx), decide_eq_true rfl⟩
    rw [(h.fresh _ hget).1] at hmem
    contradiction

/-! ### Time -/

theorem lawful_tick {s : Throttle} {key : String} {b : Bucket} (h : s.Lawful key b) (ms : ℕ) :
    Lawful { s with now := s.now + (ms : ℕ) } key b where
  sound := h.sound.later (by simp)
  order := h.order
  sleeping := h.sleeping
  kept := by
    have hgap : s.now + (ms : ℕ) - s.now = ms := by omega
    have hlater : b.Sound (s.now + ms) := h.sound.later (by simp)
    refine h.kept.wait (fun _ _ => Bucket.gain_le_gain) (by simp) ?_ hlater.refill.le
    rw [hgap]
    exact h.sound.tokens_later ms

theorem inv_tick {s : Throttle} (h : s.Inv) (ms : ℕ) : Inv { s with now := s.now + (ms : ℕ) } where
  unborn := h.unborn
  fresh := h.fresh
  lawful key b hget := lawful_tick (h.lawful key b hget) ms
  sleeps := h.sleeps

/-! ### Acquires -/

theorem acquires_other (s : Throttle) (key : String) {x : ℕ} (hx : x ≠ s.nextAcquire) :
    (s.acquireRestToken key).acquires x = s.acquires x := Function.update_of_ne hx _ _

theorem acquires_self (s : Throttle) (key : String) :
    (s.acquireRestToken key).acquires s.nextAcquire = ⟨key, .chained, []⟩ := Function.update_self ..

theorem called_acquireRestToken (s : Throttle) (key key' : String) :
    (s.acquireRestToken key).called key' =
      s.called key' ++ if key = key' then [s.nextAcquire] else [] := by
  show (List.range (s.nextAcquire + 1)).filter _ = _
  rw [List.range_succ, List.filter_append]
  congr 1
  · refine List.filter_congr fun x hx => ?_
    rw [acquires_other s key (List.mem_range.mp hx).ne]
  · rw [List.filter_singleton, acquires_self]
    by_cases hk : key = key'
    · simp [hk]
    · simp [hk]

theorem lawful_chained {s : Throttle} (h : s.Inv) (key : String) :
    (s.acquireRestToken key).Lawful key
      { s.bucketFor key with chain := (s.bucketFor key).chain ++ [s.nextAcquire] } := by
  have hcalled : (s.acquireRestToken key).called key = s.called key ++ [s.nextAcquire] := by
    rw [called_acquireRestToken, if_pos rfl]
  have hsleeping : ∀ x wakeAt, ((s.acquireRestToken key).acquires x).phase = .sleeping wakeAt →
      (s.acquires x).phase = .sleeping wakeAt ∧
        (s.acquireRestToken key).acquires x = s.acquires x := by
    intro x wakeAt hx
    by_cases hnew : x = s.nextAcquire
    · rw [hnew, acquires_self] at hx
      contradiction
    · rw [acquires_other s key hnew] at hx
      exact ⟨hx, acquires_other s key hnew⟩
  unfold bucketFor
  cases hget : s.buckets.get key with
  | some b =>
    have hb := h.lawful key b hget
    rw [Option.getD_some]
    constructor
    case sound => exact ⟨hb.sound.past, hb.sound.nonneg, hb.sound.le⟩
    case order =>
      rw [hcalled, ← hb.order, List.append_assoc]
      rfl
    case sleeping =>
      intro x wakeAt hx hkey
      obtain ⟨hold, hsame⟩ := hsleeping x wakeAt hx
      rw [hsame] at hkey
      obtain ⟨hhead, hone⟩ := hb.sleeping x wakeAt hold hkey
      refine ⟨?_, hone⟩
      rw [List.head?_append, hhead]
      rfl
    case kept =>
      rw [Bucket.tokens_refill_chain]
      exact hb.kept
  | none =>
    obtain ⟨hnone, hgrants⟩ := h.fresh key hget
    have hgrants' : (s.acquireRestToken key).grantsOf key = [] := hgrants
    rw [Option.getD_none]
    constructor
    case sound => exact ⟨le_rfl, capacity_nonneg, le_rfl⟩
    case order =>
      unfold granted
      rw [hcalled, hnone, hgrants']
      rfl
    case sleeping =>
      intro x wakeAt hx hkey
      obtain ⟨hold, hsame⟩ := hsleeping x wakeAt hx
      obtain ⟨b, hb, -⟩ := h.bucket_some (x := x) (by simp [hold])
      rw [hsame] at hkey
      rw [hkey, hget] at hb
      contradiction
    case kept =>
      unfold grantTimes
      rw [hgrants', Bucket.tokens_refill_chain]
      exact kept_start (fun _ _ => Bucket.gain_le_gain) capacity_nonneg
        (Bucket.sound_new s.now).refill.le s.now

theorem inv_acquireRestToken {s : Throttle} (h : s.Inv) (key : String) :
    (s.acquireRestToken key).Inv := by
  have hother : ∀ key', key ≠ key' → (s.acquireRestToken key).called key' = s.called key' := by
    intro key' hk
    rw [called_acquireRestToken, if_neg hk, List.append_nil]
  constructor
  case unborn =>
    intro x hx
    have hlt : s.nextAcquire + 1 ≤ x := hx
    rw [acquires_other s key (by omega)]
    exact h.unborn x (by omega)
  case fresh =>
    intro key' hget
    by_cases hk : key = key'
    · subst hk
      have hset : (s.acquireRestToken key).buckets.get key = some _ := InsertMap.get_set_self _ _ _
      rw [hset] at hget
      contradiction
    · have hold : s.buckets.get key' = none := (InsertMap.get_set_ne _ _ hk).symm.trans hget
      rw [hother key' hk]
      exact h.fresh key' hold
  case lawful =>
    intro key' b hget
    rcases InsertMap.get_set_eq_some hget with ⟨rfl, rfl⟩ | ⟨hk, hold⟩
    · exact lawful_chained h key'
    · have hb := h.lawful key' b hold
      constructor
      case sound => exact hb.sound
      case order =>
        rw [hother key' (Ne.symm hk)]
        exact hb.order
      case sleeping =>
        intro x wakeAt hx hkey
        by_cases hnew : x = s.nextAcquire
        · rw [hnew, acquires_self] at hx
          contradiction
        · rw [acquires_other s key hnew] at hx hkey
          exact hb.sleeping x wakeAt hx hkey
      case kept => exact hb.kept
  case sleeps =>
    intro x
    by_cases hnew : x = s.nextAcquire
    · rw [hnew, acquires_self]
      exact ⟨fun _ => rfl, Nat.zero_le 1, nofun⟩
    · rw [acquires_other s key hnew]
      exact h.sleeps x

/-! ### Links -/

section Links

variable {s : Throttle} {x : ℕ} {a : Acquire} {b : Bucket} {grants : List Grant}

theorem leave_self : (s.leave x a b grants).acquires x = a := Function.update_self ..

theorem leave_other {y : ℕ} (hy : y ≠ x) :
    (s.leave x a b grants).acquires y = s.acquires y := Function.update_of_ne hy _ _

theorem called_leave (ha : a.key = (s.acquires x).key) (key : String) :
    (s.leave x a b grants).called key = s.called key := by
  refine List.filter_congr fun y _ => ?_
  by_cases hy : y = x
  · rw [hy, leave_self, ha]
  · rw [leave_other hy]

theorem grantsOf_leave (key : String) : (s.leave x a b grants).grantsOf key =
    s.grantsOf key ++ grants.filter fun g => decide (g.key = key) := List.filter_append _ _

/-- A link works on its own bucket. -/
theorem inv_leave (h : s.Inv) (hx : (s.acquires x).phase ≠ .granted)
    (ha : a.key = (s.acquires x).key) (hgrants : ∀ g ∈ grants, g.key = (s.acquires x).key)
    (hsleeps : a.SleepsOnce) (hb : (s.leave x a b grants).Lawful (s.acquires x).key b) :
    (s.leave x a b grants).Inv := by
  have hother : ∀ key, key ≠ (s.acquires x).key →
      (s.leave x a b grants).grantsOf key = s.grantsOf key := by
    intro key hk
    have hnone : (grants.filter fun g => decide (g.key = key)) = [] := by
      refine List.filter_eq_nil_iff.mpr fun g hg hkey => ?_
      exact hk ((of_decide_eq_true hkey).symm.trans (hgrants g hg))
    rw [grantsOf_leave, hnone, List.append_nil]
  constructor
  case unborn =>
    intro y hy
    have hlt : x < s.nextAcquire := h.born hx
    have hge : s.nextAcquire ≤ y := hy
    rw [leave_other (by omega)]
    exact h.unborn y hge
  case fresh =>
    intro key hget
    by_cases hk : key = (s.acquires x).key
    · have hset : (s.leave x a b grants).buckets.get key = some b := by
        rw [hk]
        exact InsertMap.get_set_self _ _ _
      rw [hset] at hget
      contradiction
    · rw [called_leave ha, hother key hk]
      exact h.fresh key ((InsertMap.get_set_ne _ _ (Ne.symm hk)).symm.trans hget)
  case lawful =>
    intro key b' hget
    rcases InsertMap.get_set_eq_some hget with ⟨rfl, rfl⟩ | ⟨hk, hold⟩
    · exact hb
    · have hb' := h.lawful key b' hold
      have hsame := hother key hk
      constructor
      case sound => exact hb'.sound
      case order =>
        unfold granted
        rw [called_leave ha, hsame]
        exact hb'.order
      case sleeping =>
        intro y wakeAt hy hkey
        by_cases hyx : y = x
        · rw [hyx, leave_self, ha] at hkey
          exact absurd hkey.symm hk
        · rw [leave_other hyx] at hy hkey
          exact hb'.sleeping y wakeAt hy hkey
      case kept =>
        unfold grantTimes
        rw [hsame]
        exact hb'.kept
  case sleeps =>
    intro y
    by_cases hyx : y = x
    · rw [hyx, leave_self]
      exact hsleeps
    · rw [leave_other hyx]
      exact h.sleeps y

end Links

/-- Only the first link of a chain sleeps. -/
theorem Lawful.awake {s : Throttle} {x y : ℕ} {key : String} {b : Bucket} (h : s.Lawful key b)
    (hhead : b.chain.head? = some x) (hyx : y ≠ x) (hkey : (s.acquires y).key = key) (wakeAt : ℤ) :
    (s.acquires y).phase ≠ .sleeping wakeAt := by
  intro hy
  obtain ⟨hfirst, -⟩ := h.sleeping y wakeAt hy hkey
  rw [hhead] at hfirst
  exact hyx (Option.some.inj hfirst).symm

theorem inv_sleep {s : Throttle} (h : s.Inv) {x : ℕ} {b : Bucket}
    (hphase : (s.acquires x).phase = .chained) (hget : s.buckets.get (s.acquires x).key = some b)
    (hhead : b.chain.head? = some x) :
    (s.sleep x (b.refill s.now) (b.refill s.now).waitMs).Inv := by
  have hb := h.lawful _ b hget
  have hshort : (b.refill s.now).waitMs ≤ 100 := Bucket.waitMs_le hb.sound.refill.nonneg
  have hnone : (s.acquires x).sleeps = [] := (h.sleeps x).chained hphase
  refine inv_leave h (by simp [hphase]) rfl nofun ?_ ?_
  · constructor
    case chained => exact nofun
    case once =>
      rw [hnone]
      exact Nat.le_refl 1
    case short =>
      intro ms hms
      rw [hnone] at hms
      rw [List.mem_singleton.mp hms]
      exact hshort
  · constructor
    case sound => exact hb.sound.refill
    case order =>
      have hcalled : (s.sleep x (b.refill s.now) (b.refill s.now).waitMs).called (s.acquires x).key =
          s.called (s.acquires x).key := called_leave (by rfl) _
      unfold granted
      rw [grantsOf_leave, List.filter_nil, List.append_nil, Bucket.refill_chain]
      exact hb.order.trans hcalled.symm
    case sleeping =>
      intro y wakeAt hy hkey
      by_cases hyx : y = x
      · rw [hyx, leave_self] at hy
        injection hy with hy
        subst hyx hy
        rw [Bucket.refill_chain, Bucket.lastRefill_refill hb.sound.past, add_sub_cancel_left]
        exact ⟨hhead, Bucket.gain_waitMs _⟩
      · rw [leave_other hyx] at hy hkey
        exact absurd hy (hb.awake hhead hyx hkey wakeAt)
    case kept =>
      unfold grantTimes
      rw [grantsOf_leave, List.filter_nil, List.append_nil]
      show Kept _ _ _ ((b.refill s.now).refill s.now).tokens _
      rw [hb.sound.refill_refill]
      exact hb.kept

theorem inv_grant {s : Throttle} (h : s.Inv) {x : ℕ} {b : Bucket}
    (hphase : (s.acquires x).phase ≠ .granted) (hget : s.buckets.get (s.acquires x).key = some b)
    (hhead : b.chain.head? = some x) (hone : 1 ≤ (b.refill s.now).tokens) :
    (s.grant x (b.refill s.now)).Inv := by
  have hb := h.lawful _ b hget
  have hgrants : (s.grant x (b.refill s.now)).grantsOf (s.acquires x).key =
      s.grantsOf (s.acquires x).key ++ [⟨(s.acquires x).key, x, s.now⟩] := by
    refine (grantsOf_leave _).trans ?_
    rw [List.filter_cons_of_pos (by simp), List.filter_nil]
  refine inv_leave h hphase rfl ?_ ?_ ?_
  · intro g hg
    rw [List.mem_singleton.mp hg]
  · exact ⟨nofun, (h.sleeps x).once, (h.sleeps x).short⟩
  · constructor
    case sound => exact hb.sound.refill.take hone
    case order =>
      have hchain : x :: b.chain.tail = b.chain := List.cons_head?_tail hhead
      have hcalled : (s.grant x (b.refill s.now)).called (s.acquires x).key =
          s.called (s.acquires x).key := called_leave (by rfl) _
      have hgranted : (s.grant x (b.refill s.now)).granted (s.acquires x).key =
          s.granted (s.acquires x).key ++ [x] := by
        unfold granted
        rw [hgrants, List.map_append]
        rfl
      show (s.grant x (b.refill s.now)).granted _ ++ (b.refill s.now).chain.tail = _
      rw [hgranted, Bucket.refill_chain, List.append_assoc, List.singleton_append, hchain]
      exact hb.order.trans hcalled.symm
    case sleeping =>
      intro y wakeAt hy hkey
      by_cases hyx : y = x
      · rw [hyx, leave_self] at hy
        contradiction
      · rw [leave_other hyx] at hy hkey
        exact absurd hy (hb.awake hhead hyx hkey wakeAt)
    case kept =>
      have htimes : (s.grant x (b.refill s.now)).grantTimes (s.acquires x).key =
          s.grantTimes (s.acquires x).key ++ [s.now] := by
        unfold grantTimes
        rw [hgrants, List.map_append]
        rfl
      show Kept _ _ ((s.grant x (b.refill s.now)).grantTimes _)
        ((b.refill s.now).take.refill s.now).tokens _
      rw [htimes, hb.sound.refill_take]
      exact hb.kept.spend (fun _ _ => Bucket.gain_le_gain) hone

theorem inv_link {s : Throttle} (h : s.Inv) {x : ℕ} (hphase : (s.acquires x).phase = .chained)
    (hhead : (s.bucket x).chain.head? = some x) : (s.link x).Inv := by
  obtain ⟨b, hget, hbucket⟩ := h.bucket_some (x := x) (by simp [hphase])
  rw [hbucket] at hhead
  unfold link
  rw [hbucket]
  dsimp only
  by_cases hlt : (b.refill s.now).tokens < 1
  · rw [if_pos hlt]
    exact inv_sleep h hphase hget hhead
  · rw [if_neg hlt]
    exact inv_grant h (by simp [hphase]) hget hhead (not_lt.mp hlt)

theorem inv_wake {s : Throttle} (h : s.Inv) {x : ℕ} {wakeAt : ℤ}
    (hphase : (s.acquires x).phase = .sleeping wakeAt) (hwake : wakeAt ≤ s.now) : (s.wake x).Inv := by
  obtain ⟨b, hget, hbucket⟩ := h.bucket_some (x := x) (by simp [hphase])
  have hb := h.lawful _ b hget
  obtain ⟨hhead, hone⟩ := hb.sleeping x wakeAt hphase rfl
  unfold wake
  rw [hbucket]
  exact inv_grant h (by simp [hphase]) hget hhead (hb.sound.one_le hwake hone)

theorem inv_step {s t : Throttle} {e : Event} (h : s.Inv) (hstep : s.step e = some t) : t.Inv := by
  cases e with
  | tick ms =>
    cases hstep
    exact inv_tick h ms
  | acquireRestToken key =>
    cases hstep
    exact inv_acquireRestToken h key
  | link x =>
    simp only [step] at hstep
    split at hstep
    next hc =>
      cases hstep
      exact inv_link h hc.1 hc.2
    next => contradiction
  | wake x =>
    simp only [step] at hstep
    split at hstep
    next wakeAt hphase =>
      split at hstep
      next hwake =>
        cases hstep
        exact inv_wake h hphase hwake
      next => contradiction
    next => contradiction

theorem inv_reach {s : Throttle} (h : machine.Reach always s) : s.Inv := by
  refine h.invariant ?_ ?_
  · intro s hs
    obtain ⟨now, rfl⟩ := hs
    exact inv_initial now
  · intro s e t _ hs hstep _
    exact inv_step hs hstep

/-! ### The law -/

/-- What holds of a key after any run. -/
structure TokenLaw (s : Throttle) (key : String) : Prop where
  order : s.granted key <+: s.called key
  tokens : ∀ b, s.buckets.get key = some b → 0 ≤ b.tokens ∧ b.tokens ≤ 10
  windows : ∀ (start : ℤ) (ms : ℕ),
    ((between start (start + ms) (s.grantTimes key)).length : ℚ) ≤ 10 + ms / 100
  head : ∀ x wakeAt, (s.acquires x).phase = .sleeping wakeAt → (s.acquires x).key = key →
    (s.bucketFor key).chain.head? = some x
  once : ∀ x, (s.acquires x).key = key →
    (s.acquires x).sleeps.length ≤ 1 ∧ ∀ ms ∈ (s.acquires x).sleeps, ms ≤ 100

theorem Lawful.windows {s : Throttle} {key : String} {b : Bucket} (h : s.Lawful key b) (start : ℤ)
    (ms : ℕ) : ((between start (start + ms) (s.grantTimes key)).length : ℚ) ≤ 10 + ms / 100 := by
  have hwindow := h.kept.windows start (start + ms) (by omega)
  rw [add_sub_cancel_left, Bucket.gain_eq] at hwindow
  unfold CAPACITY RATE_PER_SEC at hwindow
  push_cast at hwindow
  linarith

theorem Inv.tokenLaw {s : Throttle} (h : s.Inv) (key : String) : s.TokenLaw key := by
  have hsleeps : ∀ x, (s.acquires x).key = key →
      (s.acquires x).sleeps.length ≤ 1 ∧ ∀ ms ∈ (s.acquires x).sleeps, ms ≤ 100 :=
    fun x _ => ⟨(h.sleeps x).once, (h.sleeps x).short⟩
  cases hget : s.buckets.get key with
  | some b =>
    have hb := h.lawful key b hget
    have hbucket : s.bucketFor key = b := by
      unfold bucketFor
      rw [hget, Option.getD_some]
    constructor
    case order => exact ⟨b.chain, hb.order⟩
    case tokens =>
      intro b' hb'
      rw [hget] at hb'
      cases hb'
      exact ⟨hb.sound.nonneg, hb.sound.le⟩
    case windows => exact hb.windows
    case head =>
      intro x wakeAt hx hkey
      rw [hbucket]
      exact (hb.sleeping x wakeAt hx hkey).1
    case once => exact hsleeps
  | none =>
    obtain ⟨hcalled, hgrants⟩ := h.fresh key hget
    constructor
    case order =>
      unfold granted
      rw [hgrants]
      exact List.nil_prefix
    case tokens =>
      intro b' hb'
      rw [hget] at hb'
      contradiction
    case windows =>
      intro start ms
      have hnone : between start (start + ms) (s.grantTimes key) = [] := by
        unfold grantTimes
        rw [hgrants]
        rfl
      have hms : (0 : ℚ) ≤ ms := Nat.cast_nonneg ms
      rw [hnone, List.length_nil, Nat.cast_zero]
      linarith
    case head =>
      intro x wakeAt hx hkey
      obtain ⟨b, hb, -⟩ := h.bucket_some (x := x) (by simp [hx])
      rw [hkey, hget] at hb
      contradiction
    case once => exact hsleeps

/-- The key that the event is about. -/
def keyOf (s : Throttle) : Event → Option String
  | .tick _ => none
  | .acquireRestToken key => some key
  | .link x => some (s.acquires x).key
  | .wake x => some (s.acquires x).key

theorem link_buckets (s : Throttle) (x : ℕ) {key : String} (hk : (s.acquires x).key ≠ key) :
    (s.link x).buckets.get key = s.buckets.get key := by
  unfold link
  dsimp only
  split
  next => exact InsertMap.get_set_ne _ _ hk
  next => exact InsertMap.get_set_ne _ _ hk

theorem step_buckets {s t : Throttle} {e : Event} (hstep : s.step e = some t) {key : String}
    (hk : s.keyOf e ≠ some key) : t.buckets.get key = s.buckets.get key := by
  have hne : ∀ key', s.keyOf e = some key' → key' ≠ key := by
    intro key' he heq
    rw [he, heq] at hk
    exact hk rfl
  cases e with
  | tick ms =>
    cases hstep
    rfl
  | acquireRestToken key' =>
    cases hstep
    exact InsertMap.get_set_ne _ _ (hne key' rfl)
  | link x =>
    simp only [step] at hstep
    split at hstep
    next =>
      cases hstep
      exact link_buckets s x (hne _ rfl)
    next => contradiction
  | wake x =>
    simp only [step] at hstep
    split at hstep
    next =>
      split at hstep
      next =>
        cases hstep
        exact InsertMap.get_set_ne _ _ (hne _ rfl)
      next => contradiction
    next => contradiction

/-- After any sequence of acquires the law holds of every key, and what happens next about one key
leaves the buckets of the others as they are. -/
theorem tokenLaw_reach (s : Throttle) (h : machine.Reach always s) :
    (∀ key, s.TokenLaw key) ∧ ∀ e t, machine.step s e = some t → ∀ key, s.keyOf e ≠ some key →
      t.buckets.get key = s.buckets.get key :=
  ⟨(inv_reach h).tokenLaw, fun _ _ hstep _ hk => step_buckets hstep hk⟩

/-- Twelve acquires of one key and one of another. The eleventh link of the first key sleeps, and
wakes 50 ms late. -/
def burst : List Event :=
  (List.replicate 12 (.acquireRestToken "cred-A")) ++ [.acquireRestToken "cred-B"] ++
    (List.range 11).map .link ++ [.tick 40, .link 12, .tick 110, .wake 10, .link 11]

def burstState : Throttle := machine.after always (initial 0) burst

theorem burst_tokenLaw : burstState.granted "cred-A" = List.range 11 ∧
    (burstState.acquires 11).sleeps = [50] ∧ burstState.TokenLaw "cred-A" := by
  have hinit : machine.Reach always (initial 0) := .init ⟨0, rfl⟩
  exact ⟨by decide +kernel, by decide +kernel, (tokenLaw_reach _ (hinit.after burst)).1 "cred-A"⟩

end Throttle

end UnoQ.Cloud
