import Mathlib.Algebra.Order.Ring.Rat
import Mathlib.Tactic.Ring
import UnoQ.Lib.TokenBudget

/-!
# The token bucket of the REST wrappers

`restThrottle.ts`. A bucket is full when it is made, and is refilled when somebody looks at it. The
acquires of a bucket form a chain: a link begins when the one before it has ended, and ends when it
has taken its token.
-/

namespace UnoQ.Cloud
open TokenBudget

def CAPACITY : ℚ := 10

def RATE_PER_SEC : ℚ := 10

theorem capacity_nonneg : 0 ≤ CAPACITY := by decide +kernel

/-- The `chain` lists the acquires whose link has not ended. -/
structure Bucket where
  tokens : ℚ
  lastRefill : ℤ
  chain : List ℕ

namespace Bucket

def new (now : ℤ) : Bucket := ⟨CAPACITY, now, []⟩

def refill (b : Bucket) (now : ℤ) : Bucket :=
  let elapsedMs := now - b.lastRefill
  if elapsedMs ≤ 0 then b
  else
    { b with
      tokens := min CAPACITY (b.tokens + elapsedMs * RATE_PER_SEC / 1000)
      lastRefill := now }

def waitMs (b : Bucket) : ℤ := max 1 (Rat.ceil ((1 - b.tokens) * 1000 / RATE_PER_SEC))

def take (b : Bucket) : Bucket := { b with tokens := b.tokens - 1, chain := b.chain.tail }

/-- The tokens that come in a time. -/
def gain : ℤ →+ ℚ where
  toFun ms := ms * RATE_PER_SEC / 1000
  map_zero' := by norm_num
  map_add' a b := by
    push_cast
    ring

theorem gain_eq (ms : ℤ) : gain ms = ms * RATE_PER_SEC / 1000 := rfl

theorem gain_le_gain {a b : ℤ} (hab : a ≤ b) : gain a ≤ gain b := by
  have hcast : (a : ℚ) ≤ b := by exact_mod_cast hab
  rw [gain_eq, gain_eq]
  unfold RATE_PER_SEC
  linarith

@[simp] theorem refill_chain (b : Bucket) (now : ℤ) : (b.refill now).chain = b.chain := by
  unfold refill
  dsimp only
  split
  · rfl
  · rfl

theorem tokens_refill_chain (b : Bucket) (chain : List ℕ) (now : ℤ) :
    ({ b with chain := chain }.refill now).tokens = (b.refill now).tokens := by
  unfold refill
  dsimp only
  split
  · rfl
  · rfl

/-- A bucket that the clock has not passed stays as it is. -/
theorem refill_of_le {b : Bucket} {now : ℤ} (h : now ≤ b.lastRefill) : b.refill now = b := by
  unfold refill
  exact if_pos (by omega)

theorem lastRefill_refill {b : Bucket} {now : ℤ} (h : b.lastRefill ≤ now) :
    (b.refill now).lastRefill = now := by
  unfold refill
  dsimp only
  split
  · omega
  · rfl

theorem tokens_refill {b : Bucket} {now : ℤ} (h : b.lastRefill ≤ now) (hcap : b.tokens ≤ CAPACITY) :
    (b.refill now).tokens = min CAPACITY (b.tokens + gain (now - b.lastRefill)) := by
  unfold refill
  dsimp only
  split
  next hle =>
    have hzero : now - b.lastRefill = 0 := by omega
    rw [hzero, map_zero, add_zero, min_eq_right hcap]
  next => rfl

/-- A sleep that does not end early brings the token that is missing. -/
theorem gain_waitMs (b : Bucket) : 1 ≤ b.tokens + gain b.waitMs := by
  have hceil : (1 - b.tokens) * 1000 / RATE_PER_SEC ≤ b.waitMs := by
    refine Rat.le_ceil.trans ?_
    exact_mod_cast le_max_right _ _
  rw [gain_eq]
  unfold RATE_PER_SEC at hceil ⊢
  linarith

/-- With no debt, a token takes 100 ms at most. -/
theorem waitMs_le {b : Bucket} (h : 0 ≤ b.tokens) : b.waitMs ≤ 100 := by
  have hceil : (1 - b.tokens) * 1000 / RATE_PER_SEC ≤ ((100 : ℤ) : ℚ) := by
    unfold RATE_PER_SEC
    push_cast
    linarith
  exact max_le (by norm_num) (Rat.ceil_le_iff.mpr hceil)

/-! ### Buckets in use -/

structure Sound (b : Bucket) (now : ℤ) : Prop where
  past : b.lastRefill ≤ now
  nonneg : 0 ≤ b.tokens
  le : b.tokens ≤ CAPACITY

theorem sound_new (now : ℤ) : (new now).Sound now := ⟨le_rfl, capacity_nonneg, le_rfl⟩

theorem Sound.later {b : Bucket} {now now' : ℤ} (h : b.Sound now) (hnow : now ≤ now') :
    b.Sound now' := ⟨h.past.trans hnow, h.nonneg, h.le⟩

theorem Sound.tokens_refill {b : Bucket} {now : ℤ} (h : b.Sound now) :
    (b.refill now).tokens = min CAPACITY (b.tokens + gain (now - b.lastRefill)) :=
  Bucket.tokens_refill h.past h.le

theorem Sound.refill {b : Bucket} {now : ℤ} (h : b.Sound now) : (b.refill now).Sound now where
  past := (lastRefill_refill h.past).le
  nonneg := by
    have hgain := gain_nonneg (fun _ _ => gain_le_gain) (sub_nonneg.mpr h.past)
    have htokens := h.nonneg
    rw [h.tokens_refill]
    refine le_min capacity_nonneg ?_
    linarith
  le := by
    rw [h.tokens_refill]
    exact min_le_left _ _

theorem Sound.refill_refill {b : Bucket} {now : ℤ} (h : b.Sound now) :
    (b.refill now).refill now = b.refill now :=
  refill_of_le (lastRefill_refill h.past).ge

theorem Sound.refill_take {b : Bucket} {now : ℤ} (h : b.Sound now) :
    (b.refill now).take.refill now = (b.refill now).take :=
  refill_of_le (lastRefill_refill h.past).ge

theorem Sound.take {b : Bucket} {now : ℤ} (h : b.Sound now) (hone : 1 ≤ b.tokens) :
    b.take.Sound now where
  past := h.past
  nonneg := sub_nonneg.mpr hone
  le := by
    have hle := h.le
    show b.tokens - 1 ≤ CAPACITY
    linarith

/-- A bucket gets no more in a time than comes in it. -/
theorem Sound.tokens_later {b : Bucket} {now : ℤ} (h : b.Sound now) (ms : ℕ) :
    (b.refill (now + ms)).tokens ≤ (b.refill now).tokens + gain ms := by
  have hlater : b.Sound (now + ms) := h.later (by omega)
  rw [h.tokens_refill, hlater.tokens_refill]
  have hsum : gain (now + ms - b.lastRefill) = gain (now - b.lastRefill) + gain ms := by
    rw [← map_add]
    congr 1
    ring
  have hgain := gain_nonneg (fun _ _ => gain_le_gain) (Int.natCast_nonneg ms)
  rw [hsum, ← add_assoc]
  refine le_trans ?_ (min_add_add_right CAPACITY _ (gain ms)).le
  exact min_le_min (by linarith) le_rfl

/-- Once its sleep is over, a link finds its token. -/
theorem Sound.one_le {b : Bucket} {now wakeAt : ℤ} (h : b.Sound now) (hwake : wakeAt ≤ now)
    (hone : 1 ≤ b.tokens + gain (wakeAt - b.lastRefill)) : 1 ≤ (b.refill now).tokens := by
  rw [h.tokens_refill]
  have hmono : gain (wakeAt - b.lastRefill) ≤ gain (now - b.lastRefill) :=
    gain_le_gain (by omega)
  exact le_min (by decide +kernel) (by linarith)

end Bucket

end UnoQ.Cloud
